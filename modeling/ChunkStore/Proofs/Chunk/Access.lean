import ChunkStore.Proofs.Chunk.Basic
import ChunkStore.Proofs.Chunk.Bounds

/-! The accessors of a chunk never leave the payload, whatever it holds, and what they answer for a
track depends on nothing but the index and the bytes of the track's own field. -/

namespace ChunkStore.Chunk

def IsAnswer {α : Type} (r : Except Error (Option α)) : Prop :=
  (∃ a, r = .ok (some a)) ∨ ∃ e, r = .error e ∧ e.isUnreadable = true

structure Answers (c : Chunk) (id : Int32) : Prop where
  size : IsAnswer (Attempt.outcome (fieldSize? id c))
  integers : IsAnswer (Attempt.outcome (integers? id c))
  text : IsAnswer (Attempt.outcome (text? id c))
  binary : IsAnswer (Attempt.outcome (binary? id c))

structure AnswersAs (c c' : Chunk) (id : Int32) : Prop where
  size : Attempt.outcome (fieldSize? id c) = Attempt.outcome (fieldSize? id c')
  integers : Attempt.outcome (integers? id c) = Attempt.outcome (integers? id c')
  text : Attempt.outcome (text? id c) = Attempt.outcome (text? id c')
  binary : Attempt.outcome (binary? id c) = Attempt.outcome (binary? id c')

structure KeepsField (index : ChunkIndex) (s : Span) (payload payload' : Bytes) : Prop where
  length : payload'.length = payload.length
  front : payload'.take index.fieldStart = payload.take index.fieldStart
  field : payload'.slice s.start s.stop = payload.slice s.start s.stop

variable {c c' d d' : Chunk} {id : Int32}

lemma outcome_readField?_error {α : Type} {e : Error} (h : field? id c = .error e d)
    (read : Field → Except Error α) : Attempt.outcome (readField? id read c) = .error e := by
  rw [readField?, Attempt.bind_error h]
  rfl

lemma outcome_readField?_field {α : Type} {f : Field} (h : field? id c = .ok (some f) d)
    (read : Field → Except Error α) :
    Attempt.outcome (readField? id read c) = (read f).map some := by
  cases hread : read f with
  | ok a => exact outcome_readField?_some h hread
  | error e =>
    rw [readField?, Attempt.bind_ok h]
    simp only [hread]
    rfl

lemma isAnswer_of_field? {α : Type} {f : Field} (h : field? id c = .ok (some f) d)
    {read : Field → Except Error α} (hread : ∀ e, read f = .error e → e.isUnreadable = true) :
    IsAnswer (Attempt.outcome (readField? id read c)) := by
  rw [outcome_readField?_field h]
  cases hr : read f with
  | ok a => exact .inl ⟨a, rfl⟩
  | error e => exact .inr ⟨e, rfl, hread e hr⟩

lemma answers_of_field? {f : Field} (h : field? id c = .ok (some f) d) : c.Answers id where
  size := isAnswer_of_field? h fun _ he => by cases he
  integers := isAnswer_of_field? h fun _ he => Track.unreadable_of_decodeIntegers he
  text := isAnswer_of_field? h fun _ he => Track.unreadable_of_decodeText he
  binary := isAnswer_of_field? h fun _ he => Track.unreadable_of_decodeBinary he

lemma answers_of_error {e : Error} (h : field? id c = .error e d) (he : e.isUnreadable = true) :
    c.Answers id where
  size := .inr ⟨e, outcome_readField?_error h _, he⟩
  integers := .inr ⟨e, outcome_readField?_error h _, he⟩
  text := .inr ⟨e, outcome_readField?_error h _, he⟩
  binary := .inr ⟨e, outcome_readField?_error h _, he⟩

lemma answersAs_of_field? {f : Field} (h : field? id c = .ok (some f) d)
    (h' : field? id c' = .ok (some f) d') : c.AnswersAs c' id := by
  have hread {α : Type} (read : Field → Except Error α) :
      Attempt.outcome (readField? id read c) = Attempt.outcome (readField? id read c') := by
    rw [outcome_readField?_field h, outcome_readField?_field h']
  exact ⟨hread _, hread _, hread _, hread _⟩

lemma span_of_track {d : Descriptor} {payload : Bytes} {track : Track} {index : ChunkIndex} {i : Nat}
    (hi : d.tracks[i]? = some track) (hindex : ChunkIndex.decode payload d.size = .ok index) :
    ∃ s, index.spans[i]? = some s := by
  obtain ⟨hlt, -⟩ := List.getElem?_eq_some_iff.1 hi
  have hlen : index.spans.length = d.tracks.length := (ChunkIndex.tiles_of_decode hindex).length_spans
  exact ⟨_, List.getElem?_eq_getElem (hlen ▸ hlt)⟩

lemma field?_corrupt {d : Descriptor} {t : Int64} {payload : Bytes} {track : Track} {e : Error}
    (hfind : d.find? id = some track) (hindex : ChunkIndex.decode payload d.size = .error e) :
    field? id (ofParts d t payload) = .error e (ofParts d t payload) := by
  obtain ⟨i, hi, -⟩ := TrackList.indexOf?_of_find? hfind
  simp only [field?, ofParts, hfind, hi, Chunk.index, hindex]

lemma answers_of_mem {d : Descriptor} {track : Track} (h : track ∈ d.tracks) (t : Int64)
    (payload : Bytes) : (ofParts d t payload).Answers track.id := by
  have hfind := TrackList.find?_of_mem h
  obtain ⟨c, hc⟩ | ⟨index, hindex, -⟩ := ChunkIndex.decode_cases payload d.size
  · exact answers_of_error (field?_corrupt hfind hc) rfl
  · obtain ⟨i, hi, htrack⟩ := TrackList.indexOf?_of_find? hfind
    obtain ⟨s, hs⟩ := span_of_track htrack hindex
    exact answers_of_field? (field?_ofParts hfind hi hindex hs)

lemma answersAs_of_keepsField {d : Descriptor} {payload payload' : Bytes} {index : ChunkIndex}
    {i : Nat} {s : Span} {track : Track} (hi : d.tracks[i]? = some track)
    (hindex : ChunkIndex.decode payload d.size = .ok index) (hs : index.spans[i]? = some s)
    (h : KeepsField index s payload payload') (t : Int64) :
    (ofParts d t payload).AnswersAs (ofParts d t payload') track.id := by
  have hfind := TrackList.find?_of_mem (List.mem_of_getElem? hi)
  have hpos := TrackList.indexOf?_of_getElem? hi
  have hindex' := ChunkIndex.decode_congr hindex h.length h.front
  have hfield' := field?_ofParts (t := t) hfind hpos hindex' hs
  rw [h.field] at hfield'
  exact answersAs_of_field? (field?_ofParts hfind hpos hindex hs) hfield'

theorem reads_own_field (d : Descriptor) (t : Int64) (payload : Bytes) :
    (∀ id, id ∉ d.tracks.map Track.id → (ofParts d t payload).Lacks id) ∧
      (∀ track ∈ d.tracks, (ofParts d t payload).Answers track.id) ∧
      ChunkIndex.BlocksWithin payload d.size ∧
      ∀ index, ChunkIndex.decode payload d.size = .ok index →
        index.Tiles payload d.size ∧
          ∀ (i : Nat) (track : Track), d.tracks[i]? = some track → ∃ s, index.spans[i]? = some s ∧
            ∀ payload', KeepsField index s payload payload' →
              (ofParts d t payload).AnswersAs (ofParts d t payload') track.id := by
  refine ⟨fun id hid => ?_, fun track htrack => answers_of_mem htrack t payload,
    ChunkIndex.blocksWithin payload d.size, fun index hindex =>
      ⟨ChunkIndex.tiles_of_decode hindex, fun i track hi => ?_⟩⟩
  · exact lacks_of_field? (field?_eq_none (TrackList.find?_eq_none hid))
  · obtain ⟨s, hs⟩ := span_of_track hi hindex
    exact ⟨s, hs, fun payload' h => answersAs_of_keepsField hi hindex hs h t⟩

def sampleRecord : Descriptor where
  tracks := [⟨1, .binary⟩, ⟨2, .text⟩]
  ascending := by decide
  length_lt := by decide
  scope := none
  persistedId := 0

def samplePayload (last : UInt8) : Bytes := [0, 2, 2, 1, 170, 187, last]

theorem reads_own_field_sample :
    ChunkIndex.decode (samplePayload 65) 2 = .ok ⟨4, [⟨4, 6, 2⟩, ⟨6, 7, 1⟩]⟩ ∧
      KeepsField ⟨4, [⟨4, 6, 2⟩, ⟨6, 7, 1⟩]⟩ ⟨4, 6, 2⟩ (samplePayload 65) (samplePayload 255) ∧
      (ofParts sampleRecord 7 (samplePayload 65)).AnswersAs
        (ofParts sampleRecord 7 (samplePayload 255)) 1 ∧
      (ofParts sampleRecord 7 (samplePayload 65)).Gives 1 (.binary [170, 187]) := by
  have hindex : ChunkIndex.decode (samplePayload 65) 2 = .ok ⟨4, [⟨4, 6, 2⟩, ⟨6, 7, 1⟩]⟩ := by rfl
  have hkeeps : KeepsField ⟨4, [⟨4, 6, 2⟩, ⟨6, 7, 1⟩]⟩ ⟨4, 6, 2⟩ (samplePayload 65)
      (samplePayload 255) := ⟨rfl, rfl, rfl⟩
  obtain ⟨-, -, -, hlocal⟩ := reads_own_field sampleRecord 7 (samplePayload 65)
  obtain ⟨s, hs, hsame⟩ := (hlocal _ hindex).2 0 ⟨1, .binary⟩ rfl
  obtain rfl : (⟨4, 6, 2⟩ : Span) = s := by simpa using hs
  exact ⟨hindex, hkeeps, hsame _ hkeeps, rfl⟩

end ChunkStore.Chunk
