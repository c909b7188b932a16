import ChunkStore.Attempt
import ChunkStore.Field

/-!
Reading and writing at the end of a list that is in use for other things as well, one element after
the other. A step that fails leaves what the steps before it have appended.
-/

namespace ChunkStore

namespace Codec

/-- Appends the values of the `count` codes from position `pos` on, as they stand, and says where
the last one ends. -/
def pushCodes (input : Bytes) : Nat → Nat → Attempt (List Int32) Nat
  | 0, pos => fun out => .ok pos out
  | count + 1, pos => fun out =>
    match Varbyte.read (input.drop pos) with
    | .ok (v, rest) => pushCodes input count (input.length - rest.length) (out ++ [v])
    | .error flaw => .error (.corrupt (corruption input flaw)) out

def pushPlain (input : Bytes) (count : Nat) : Attempt (List Int32) Nat := fun out =>
  if input.length < count then .error (.corrupt (.tooFewBytes count input.length)) out
  else pushCodes input count 0 out

def addPrevious (out : List Int32) (i : Nat) : List Int32 :=
  out.set i (out.getD i 0 + out.getD (i - 1) 0)

def sumFrom (start : Nat) (out : List Int32) : List Int32 :=
  (List.range' (start + 1) (out.length - (start + 1))).foldl addPrevious out

def decompressInto : Codec → Bytes → Nat → Attempt (List Int32) Nat
  | plain, input, count => pushPlain input count
  | delta, input, count => fun out =>
    match pushPlain input count out with
    | .ok consumed decoded => .ok consumed (sumFrom out.length decoded)
    | .error e decoded => .error e decoded

/-- What is written so far, and the last value. -/
def pushDifference (written : Bytes × Option Int32) (v : Int32) : Bytes × Option Int32 :=
  let difference := match written.2 with
    | none => v
    | some previous => v - previous
  (written.1 ++ Varbyte.encode difference, some v)

def compressInto : Codec → List Int32 → Bytes → Bytes
  | plain, vs, out => vs.foldl (fun out v => out ++ Varbyte.encode v) out
  | delta, vs, out => (vs.foldl pushDifference (out, none)).1

end Codec

def Track.write (t : Track) (v : FieldValue) : Attempt Bytes Unit := do
  Attempt.ofExcept (t.checkKind v.kind)
  match v with
  | .binary bytes => modify (· ++ bytes)
  | .text s => modify (· ++ Utf8.ofString s)
  | .integers vs =>
    let codec ← Attempt.ofExcept (Codec.ofEncoding t.encoding)
    modify (codec.compressInto vs)

end ChunkStore
