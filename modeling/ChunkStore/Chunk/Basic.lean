import ChunkStore.Attempt
import ChunkStore.Chunk.Index
import ChunkStore.Descriptor
import ChunkStore.Field

/-!
A chunk holds the values of all tracks of a descriptor for one timestamp, in one byte string. Its
index is read when a field is first asked for, and kept.
-/

namespace ChunkStore

structure Chunk where
  descriptor : Descriptor
  timestamp : Int64
  payload : Bytes
  known : Option ChunkIndex := none

structure Field where
  track : Track
  data : Bytes
  size : Nat

namespace Chunk

def ofParts (descriptor : Descriptor) (timestamp : Int64) (payload : Bytes) : Chunk :=
  { descriptor, timestamp, payload }

def close (c : Chunk) : Chunk := { c with known := none }

def index : Attempt Chunk ChunkIndex := fun c =>
  match c.known with
  | some index => .ok index c
  | none =>
    match ChunkIndex.decode c.payload c.descriptor.size with
    | .ok index => .ok index { c with known := some index }
    | .error e => .error e c

def field? (id : Int32) : Attempt Chunk (Option Field) := fun c =>
  match c.descriptor.find? id, c.descriptor.indexOf? id with
  | some track, some i =>
    match index c with
    | .error e c => .error e c
    | .ok index c =>
      .ok (index.spans[i]?.map fun s => ⟨track, c.payload.slice s.start s.stop, s.size⟩) c
  | _, _ => .ok none c

def readField? {α : Type} (id : Int32) (read : Field → Except Error α) :
    Attempt Chunk (Option α) := do
  match ← field? id with
  | none => return none
  | some f => return some (← Attempt.ofExcept (read f))

def fieldSize? (id : Int32) : Attempt Chunk (Option Nat) := readField? id fun f => .ok f.size

def integers? (id : Int32) : Attempt Chunk (Option (List Int32)) :=
  readField? id fun f => f.track.decodeIntegers f.data f.size

def text? (id : Int32) : Attempt Chunk (Option String) :=
  readField? id fun f => f.track.decodeText f.data f.size

def binary? (id : Int32) : Attempt Chunk (Option Bytes) :=
  readField? id fun f => f.track.decodeBinary f.data f.size

end Chunk
end ChunkStore
