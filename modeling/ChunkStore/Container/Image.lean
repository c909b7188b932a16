import ChunkStore.Container.Basic
import ChunkStore.Text.Utf8
import ChunkStore.Varbyte

/-!
Containers as one byte string, for keeping them in files: the tables one after another, each as its
state and, if it is there, the number of its rows and the rows. Byte strings have their length in
front.
-/

namespace ChunkStore.Image

/-- Stands at the front. It is no text, so that an image is never taken for one. -/
def mark : Bytes := 0xA9 :: Utf8.ofString "chunk store image 1\n"

def encodeFrame (bs : Bytes) : Bytes := Varbyte.encodeNat bs.length ++ bs

def encodeWord (n : UInt64) : Bytes :=
  Bytes.ofWord (n.toNat % 4294967296) ++ Bytes.ofWord (n.toNat / 4294967296)

def encodeText (s : String) : Bytes := encodeFrame (Utf8.ofString s)

def encodeTable {κ ν : Type} [LT κ] (row : κ × ν → Bytes) : Table κ ν → Bytes
  | .missing => [0]
  | .foreign types => 1 :: encodeText types.key ++ encodeText types.value
  | .stored rows => 2 :: Varbyte.encodeNat rows.size ++ rows.entries.flatMap row

def encode (c : Container) : Bytes :=
  mark ++ encodeTable (fun e => encodeText e.1 ++ encodeText e.2) c.metadata ++
    encodeTable (fun e => encodeWord e.1 ++ encodeFrame e.2) c.descriptors ++
    encodeTable (fun e => encodeFrame e.1 ++ encodeWord e.2) c.contents ++
    encodeTable (fun e => encodeWord e.1.toUInt64 ++ encodeWord e.2.descriptorId ++
      encodeFrame e.2.payload) c.chunks ++
    Varbyte.encodeNat c.others.length ++ c.others.flatMap encodeText

abbrev Reader (α : Type) := StateT Bytes Option α

def number : Reader Nat := fun bs =>
  match Varbyte.readNat 5 bs with
  | .ok (n, rest) => some (n, rest)
  | .error _ => none

def frame : Reader Bytes := do
  let n ← number
  fun bs => if n ≤ bs.length then some (bs.take n, bs.drop n) else none

def word : Reader UInt64 := do
  let low ← Bytes.word?
  let high ← Bytes.word?
  return UInt64.ofNat (low + high * 4294967296)

def text : Reader String := do
  match Utf8.decode (← frame) with
  | .ok s => return s
  | .error _ => failure

def repeated {α : Type} (read : Reader α) : Nat → Reader (List α)
  | 0 => return []
  | n + 1 => do
    let a ← read
    let as ← repeated read n
    return a :: as

def byte : Reader UInt8
  | [] => none
  | b :: rest => some (b, rest)

section

variable {κ ν : Type} [LE κ] [LT κ] [DecidableLT κ] [Std.IsLinearOrder κ] [Std.LawfulOrderLT κ]

def table (key : Reader κ) (value : Reader ν) : Reader (Table κ ν) := do
  match ← byte with
  | 0 => return .missing
  | 1 => return .foreign ⟨← text, ← text⟩
  | 2 =>
    let row := do
      let k ← key
      let v ← value
      return (k, v)
    let rows ← repeated row (← number)
    return .stored (rows.foldl (fun r e => r.insert e.1 e.2) Rows.empty)
  | _ => failure

end

def container : Reader Container := do
  let metadata ← table text text
  let descriptors ← table word frame
  let contents ← table frame word
  let chunks ← table (UInt64.toInt64 <$> word) (ChunkRow.mk <$> word <*> frame)
  let others ← repeated text (← number)
  return { metadata, descriptors, contents, chunks, others }

def decode? (bs : Bytes) : Option Container :=
  if bs.take mark.length = mark then
    match container (bs.drop mark.length) with
    | some (c, []) => some c
    | _ => none
  else none

end ChunkStore.Image
