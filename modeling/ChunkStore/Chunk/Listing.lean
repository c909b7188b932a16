import ChunkStore.Chunk.Basic
import ChunkStore.Json

/-!
Chunks as JSON: the timestamp, the number of the descriptor, and for each track its id, encoding and
number of elements, with the values if they are wanted.
-/

namespace ChunkStore.Chunk

def textJson (s : String) : Json := .text s

def integersJson (vs : List Int32) : Json := .list (vs.map fun v => .integer v.toInt)

def sizeJson (n : Nat) : Json := .integer n

def orNull {α : Type} (f : α → Json) : Option α → Json
  | some a => f a
  | none => .null

def valueJson (t : Track) : Attempt Chunk Json :=
  match t.encoding with
  | .binary => (orNull fun bs => textJson (Hex.text bs)) <$> binary? t.id
  | .text => orNull textJson <$> text? t.id
  | .varbyte | .deltaVarbyte => orNull integersJson <$> integers? t.id
  | .noData | .centerFiltered => pure .null

def trackJson (values : Bool) (t : Track) : Attempt Chunk Json := do
  let size ← fieldSize? t.id
  let members := [("encoding", textJson t.encoding.name), ("id", .integer t.id.toInt),
    ("length", orNull sizeJson size)]
  if values then return .object (members ++ [("values", ← valueJson t)]) else return .object members

def tracksJson (values : Bool) : List Track → Attempt Chunk (List Json)
  | [] => pure []
  | t :: ts => do
    let j ← trackJson values t
    let js ← tracksJson values ts
    return j :: js

def toJson (values : Bool) : Attempt Chunk Json := fun c =>
  let listing : Attempt Chunk Json := do
    let tracks ← tracksJson values c.descriptor.tracks
    return .object [("descriptor_id", .integer c.descriptor.persistedId.toNat),
      ("timestamp", .integer c.timestamp.toInt), ("tracks", .list tracks)]
  listing c

end ChunkStore.Chunk
