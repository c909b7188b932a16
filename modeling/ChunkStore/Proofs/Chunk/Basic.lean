import ChunkStore.Chunk.Basic
import ChunkStore.Proofs.Attempt
import ChunkStore.Proofs.Field
import ChunkStore.Proofs.TrackList

namespace ChunkStore.Chunk

def Gives (c : Chunk) (id : Int32) : FieldValue → Prop
  | .binary bytes => Attempt.outcome (binary? id c) = .ok (some bytes)
  | .text s => Attempt.outcome (text? id c) = .ok (some s)
  | .integers vs => Attempt.outcome (integers? id c) = .ok (some vs)

def GivesEmpty (c : Chunk) (t : Track) : Prop :=
  match t.encoding with
  | .binary => c.Gives t.id (.binary [])
  | .text => c.Gives t.id (.text "")
  | .varbyte | .deltaVarbyte => c.Gives t.id (.integers [])
  | .noData | .centerFiltered =>
    c.Gives t.id (.binary []) ∧ c.Gives t.id (.text "") ∧ c.Gives t.id (.integers [])

def HasSize (c : Chunk) (id : Int32) (n : Nat) : Prop :=
  Attempt.outcome (fieldSize? id c) = .ok (some n)

def Lacks (c : Chunk) (id : Int32) : Prop :=
  Attempt.outcome (binary? id c) = .ok none ∧ Attempt.outcome (text? id c) = .ok none ∧
    Attempt.outcome (integers? id c) = .ok none ∧ Attempt.outcome (fieldSize? id c) = .ok none

variable {c d : Chunk} {id : Int32} {f : Field}

lemma outcome_readField?_none {α : Type} (h : field? id c = .ok none d) (read : Field → Except Error α) :
    Attempt.outcome (readField? id read c) = .ok none := by
  rw [readField?, Attempt.bind_ok h]
  rfl

lemma outcome_readField?_some {α : Type} (h : field? id c = .ok (some f) d)
    {read : Field → Except Error α} {a : α} (hread : read f = .ok a) :
    Attempt.outcome (readField? id read c) = .ok (some a) := by
  rw [readField?, Attempt.bind_ok h]
  simp only [hread]
  rfl

lemma lacks_of_field? (h : field? id c = .ok none d) : c.Lacks id :=
  ⟨outcome_readField?_none h _, outcome_readField?_none h _, outcome_readField?_none h _,
    outcome_readField?_none h _⟩

lemma hasSize_of_field? (h : field? id c = .ok (some f) d) : c.HasSize id f.size :=
  outcome_readField?_some h rfl

lemma gives_of_field? (h : field? id c = .ok (some f) d) {v : FieldValue}
    (hv : f.track.Decodes f.data f.size v) : c.Gives id v := by
  cases v with
  | binary bytes => exact outcome_readField?_some h hv
  | text s => exact outcome_readField?_some h hv
  | integers vs => exact outcome_readField?_some h hv

lemma givesEmpty_of_field? (h : field? f.track.id c = .ok (some f) d)
    (hf : f.track.DecodesEmpty f.data f.size) : c.GivesEmpty f.track := by
  rw [GivesEmpty]
  rw [Track.DecodesEmpty] at hf
  cases he : f.track.encoding with
  | binary | text | varbyte | deltaVarbyte =>
    rw [he] at hf
    exact gives_of_field? h hf
  | noData | centerFiltered =>
    rw [he] at hf
    exact ⟨gives_of_field? h hf.1, gives_of_field? h hf.2.1, gives_of_field? h hf.2.2⟩

lemma field?_eq_none (h : c.descriptor.find? id = none) : field? id c = .ok none c := by
  simp only [field?, h]

lemma field?_ofParts {d : Descriptor} {t : Int64} {payload : Bytes} {track : Track} {i : Nat}
    {index : ChunkIndex} {s : Span} (hfind : d.find? id = some track) (hi : d.indexOf? id = some i)
    (hindex : ChunkIndex.decode payload d.size = .ok index) (hs : index.spans[i]? = some s) :
    field? id (ofParts d t payload) = .ok (some ⟨track, payload.slice s.start s.stop, s.size⟩)
      { ofParts d t payload with known := some index } := by
  simp only [field?, ofParts, hfind, hi, Chunk.index, hindex, hs, Option.map_some]

end ChunkStore.Chunk
