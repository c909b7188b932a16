import ChunkStore.Codec

/-!
The index in front of a chunk's fields: where each field starts behind the index, as differences,
then how many elements each has. A field ends where the next one starts, the last one at the end of
the payload.
-/

namespace ChunkStore

structure Span where
  start : Nat
  stop : Nat
  size : Nat
  deriving DecidableEq, Repr

structure ChunkIndex where
  fieldStart : Nat
  spans : List Span
  deriving DecidableEq, Repr

namespace ChunkIndex

/-- Offsets that lie within `region` bytes and do not decrease, the first one no less than
`previous`. -/
def offsets (region : Nat) (previous : Nat) : List Int32 → Except Error (List Nat)
  | [] => .ok []
  | raw :: rest =>
    let offset := raw.toNatClampNeg
    if raw < 0 then .error (.corrupt (.negativeOffset raw))
    else if region < offset then .error (.corrupt (.offsetBeyondFields offset region))
    else if offset < previous then .error (.corrupt (.offsetsDecrease previous offset))
    else
      match offsets region offset rest with
      | .ok os => .ok (offset :: os)
      | .error e => .error e

def sizes : List Int32 → Except Error (List Nat)
  | [] => .ok []
  | raw :: rest =>
    if raw < 0 then .error (.corrupt (.negativeLength raw))
    else
      match sizes rest with
      | .ok ns => .ok (raw.toNatClampNeg :: ns)
      | .error e => .error e

def layOut (start total : Nat) : List Nat → List Nat → List Span
  | offset :: os, size :: ns =>
    ⟨start + offset, (os.head?.map (start + ·)).getD total, size⟩ :: layOut start total os ns
  | _, _ => []

def decode (payload : Bytes) (count : Nat) : Except Error ChunkIndex := do
  let (rawOffsets, rest) ← Codec.delta.split payload count
  let (rawSizes, fields) ← Codec.plain.split rest count
  let start := payload.length - fields.length
  let os ← offsets fields.length 0 rawOffsets
  let ns ← sizes rawSizes
  return ⟨start, layOut start payload.length os ns⟩

def encode (os ns : List Nat) : Bytes :=
  Codec.delta.compress (os.map Int32.ofNat) ++ Codec.plain.compress (ns.map Int32.ofNat)

end ChunkIndex
end ChunkStore
