import ChunkStore.Chunk.Basic

/-!
Chunks are put together in a builder: a timestamp, and for each track at most one value. Building a
chunk empties the builder for the next one.
-/

namespace ChunkStore

structure EncodedField where
  data : Bytes
  size : Nat
  deriving DecidableEq, Repr

/-- `fields` has a place for every track of the descriptor, in order. -/
structure ChunkBuilder where
  descriptor : Descriptor
  timestamp : Option Int64
  fields : List (Option EncodedField)

namespace ChunkBuilder

def empty (d : Descriptor) : ChunkBuilder := ⟨d, none, List.replicate d.size none⟩

def reset (b : ChunkBuilder) : ChunkBuilder :=
  { b with timestamp := none, fields := b.fields.map fun _ => none }

def setTimestamp (t : Int64) : Attempt ChunkBuilder Unit := fun b =>
  if t < 0 then .error (.invalidArgument (.negativeTimestamp t)) b
  else .ok () { b with timestamp := some t }

def maxIndexed : Nat := 2147483647

def set (id : Int32) (v : FieldValue) : Attempt ChunkBuilder Unit := fun b =>
  match b.descriptor.find? id, b.descriptor.indexOf? id with
  | some track, some i =>
    if (b.fields.getD i none).isSome then .error (.duplicateField id) b
    else if maxIndexed < v.size then .error (.invalidArgument (.tooManyElements id v.size)) b
    else
      match track.encode v with
      | .ok data => .ok () { b with fields := b.fields.set i (some ⟨data, v.size⟩) }
      | .error e => .error e b
  | _, _ => .error (.unknownTrack id) b

def dataOf (f : Option EncodedField) : Bytes := (f.map EncodedField.data).getD []

def sizeOf (f : Option EncodedField) : Nat := (f.map EncodedField.size).getD 0

def offsets (position : Nat) : List (Option EncodedField) → List Nat
  | [] => []
  | f :: fs => position :: offsets (position + (dataOf f).length) fs

def payload (fields : List (Option EncodedField)) : Bytes :=
  ChunkIndex.encode (offsets 0 fields) (fields.map sizeOf) ++ fields.flatMap dataOf

def build : Attempt ChunkBuilder Chunk := fun b =>
  match b.timestamp with
  | none => .error .missingTimestamp b
  | some t =>
    match (offsets 0 b.fields).find? (maxIndexed < ·) with
    | some offset => .error (.invalidArgument (.fieldsTooLarge offset)) b
    | none => .ok (.ofParts b.descriptor t (payload b.fields)) b.reset

end ChunkBuilder
end ChunkStore
