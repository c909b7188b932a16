import ChunkStore.Chunk.Calls
import ChunkStore.Proofs.Chunk.Access

/-!
A chunk reads its index when it is first needed and keeps it. This is not seen from outside: in
every state a chunk answers as it did when it was new.
-/

namespace ChunkStore

namespace Chunk

open Attempt

variable {d : Descriptor} {t : Int64} {payload : Bytes} {c c' : Chunk}

inductive StateOf (d : Descriptor) (t : Int64) (payload : Bytes) : Chunk → Prop
  | fresh : StateOf d t payload (ofParts d t payload)
  | indexed {index : ChunkIndex} (h : ChunkIndex.decode payload d.size = .ok index) :
    StateOf d t payload { ofParts d t payload with known := some index }

lemma StateOf.descriptor (h : StateOf d t payload c) : c.descriptor = d := by
  cases h <;> rfl

lemma StateOf.timestamp (h : StateOf d t payload c) : c.timestamp = t := by
  cases h <;> rfl

lemma StateOf.payload_eq (h : StateOf d t payload c) : c.payload = payload := by
  cases h <;> rfl

lemma StateOf.close_eq (h : StateOf d t payload c) : c.close = ofParts d t payload := by
  cases h <;> rfl

lemma StateOf.decode_of_known (h : StateOf d t payload c) {index : ChunkIndex}
    (hknown : c.known = some index) : ChunkIndex.decode payload d.size = .ok index := by
  cases h with
  | fresh => cases hknown
  | indexed hindex => exact Option.some.inj hknown ▸ hindex

def Alike (d : Descriptor) (t : Int64) (payload : Bytes) (c c' : Chunk) : Prop :=
  StateOf d t payload c ∧ StateOf d t payload c'

lemma StateOf.alike (h : StateOf d t payload c) : Alike d t payload c (ofParts d t payload) :=
  ⟨h, .fresh⟩

lemma index_run (h : StateOf d t payload c) : index c =
    match ChunkIndex.decode payload d.size with
    | .ok index => .ok index { ofParts d t payload with known := some index }
    | .error e => .error e (ofParts d t payload) := by
  cases h with
  | fresh => cases hindex : ChunkIndex.decode payload d.size <;> simp [index, ofParts, hindex]
  | indexed hindex => simp only [index, hindex]

lemma congruent_index : Congruent (Alike d t payload) index := fun c c' h => by
  rw [index_run h.1, index_run h.2]
  cases hindex : ChunkIndex.decode payload d.size with
  | ok index => exact agree_ok index ⟨.indexed hindex, .indexed hindex⟩
  | error e => exact agree_error e ⟨.fresh, .fresh⟩

lemma congruent_field? (id : Int32) : Congruent (Alike d t payload) (field? id) := fun c c' h => by
  have hindex := congruent_index c c' h
  simp only [field?, h.1.descriptor, h.2.descriptor]
  split
  next track i hfind hi =>
    obtain ⟨index, s, s', hs, hs', hstates⟩ | ⟨e, s, s', hs, hs', hstates⟩ := hindex.cases
    · simp only [hs, hs', hstates.1.payload_eq, hstates.2.payload_eq]
      exact agree_ok _ hstates
    · simp only [hs, hs']
      exact agree_error e hstates
  next => exact agree_ok _ h

lemma congruent_readField? {α : Type} (id : Int32) (read : Field → Except Error α) :
    Congruent (Alike d t payload) (readField? id read) := by
  refine (congruent_field? id).bind fun f => ?_
  cases f with
  | none => exact congruent_pure _
  | some f => exact (congruent_ofExcept _).bind fun a => congruent_pure _

lemma congruent_call (request : Request) : Congruent (Alike d t payload) request.run := by
  cases request with
  | fieldSize id => exact (congruent_readField? id _).map _
  | integers id => exact (congruent_readField? id _).map _
  | text id => exact (congruent_readField? id _).map _
  | binary id => exact (congruent_readField? id _).map _
  | close =>
    intro c c' h
    have hclose : Alike d t payload c.close c'.close := by
      rw [h.1.close_eq, h.2.close_eq]
      exact ⟨.fresh, .fresh⟩
    exact agree_ok _ hclose

lemma StateOf.request (h : StateOf d t payload c) (request : Request) :
    StateOf d t payload (state (request.run c)) := (congruent_call request c c ⟨h, h⟩).2.1

lemma StateOf.outcome_call (h : StateOf d t payload c) (request : Request) :
    outcome (request.run c) = outcome (request.run (ofParts d t payload)) :=
  (congruent_call request c _ h.alike).1

lemma StateOf.afterAll (h : StateOf d t payload c) (requests : List Request) :
    StateOf d t payload (afterAll requests c) := by
  induction requests generalizing c with
  | nil => exact h
  | cons request requests ih => exact ih (h.request request)

lemma StateOf.replies_eq (h : StateOf d t payload c) (requests : List Request) :
    replies c requests = requests.map fun request => outcome (request.run (ofParts d t payload)) := by
  induction requests generalizing c with
  | nil => rfl
  | cons request requests ih => rw [replies, h.outcome_call request, ih (h.request request), List.map_cons]

lemma StateOf.run {α : Type} {f : Attempt Chunk α} (h : StateOf d t payload c)
    (hf : Congruent (Alike d t payload) f) {a : α} (ha : outcome (f (ofParts d t payload)) = .ok a) :
    ∃ c', f c = .ok a c' ∧ StateOf d t payload c' := by
  obtain ⟨hout, hstates⟩ := hf c _ h.alike
  rw [ha] at hout
  exact ⟨_, state_outcome_eq_ok_iff.1 (Prod.ext rfl hout), hstates.1⟩

def Request.id? : Request → Option Int32
  | fieldSize id | integers id | text id | binary id => some id
  | close => none

lemma state_readField? {α : Type} (id : Int32) (read : Field → Except Error α) (c : Chunk) :
    state (readField? id read c) = state (field? id c) := by
  cases h : field? id c with
  | error e c' =>
    rw [readField?, bind_error h]
    rfl
  | ok f c' =>
    rw [readField?, bind_ok h]
    cases f with
    | none => rfl
    | some f => cases hread : read f <;> simp only [hread] <;> rfl

lemma state_request {request : Request} {id : Int32} (hid : request.id? = some id) (c : Chunk) :
    state (request.run c) = state (field? id c) := by
  cases request with
  | close => cases hid
  | fieldSize | integers | text | binary =>
    cases hid
    rw [Request.run, state_map]
    exact state_readField? _ _ c

lemma StateOf.known_field? (h : StateOf d t payload c) {id : Int32} {track : Track}
    (hfind : d.find? id = some track) {index : ChunkIndex}
    (hindex : ChunkIndex.decode payload d.size = .ok index) :
    (state (field? id c)).known = some index := by
  obtain ⟨i, hi, -⟩ := TrackList.indexOf?_of_find? hfind
  have hrun := index_run h
  rw [hindex] at hrun
  simp only [field?, h.descriptor, hfind, hi, hrun, state_ok]

lemma afterAll_concat (requests : List Request) (request : Request) (c : Chunk) :
    afterAll (requests ++ [request]) c = state (request.run (afterAll requests c)) := by
  simp [afterAll]

theorem replies_as_new (d : Descriptor) (t : Int64) (payload : Bytes) (requests : List Request) :
    replies (ofParts d t payload) requests =
        requests.map (fun request => outcome (request.run (ofParts d t payload))) ∧
      (afterAll requests (ofParts d t payload)).descriptor = d ∧
      (afterAll requests (ofParts d t payload)).timestamp = t ∧
      (afterAll requests (ofParts d t payload)).payload = payload ∧
      (∀ index, (afterAll requests (ofParts d t payload)).known = some index →
        ChunkIndex.decode payload d.size = .ok index) ∧
      (∀ request id track index, Request.id? request = some id → d.find? id = some track →
        ChunkIndex.decode payload d.size = .ok index →
        (afterAll (requests ++ [request]) (ofParts d t payload)).known = some index) ∧
      afterAll (requests ++ [.close]) (ofParts d t payload) = ofParts d t payload := by
  have h : StateOf d t payload (afterAll requests (ofParts d t payload)) :=
    StateOf.fresh.afterAll requests
  refine ⟨StateOf.fresh.replies_eq requests, h.descriptor, h.timestamp, h.payload_eq,
    fun index hknown => h.decode_of_known hknown, ?_, ?_⟩
  · intro request id track index hid hfind hindex
    rw [afterAll_concat, state_request hid]
    exact h.known_field? hfind hindex
  · rw [afterAll_concat]
    exact h.close_eq

def sampleRequests : List Request := [.binary 1, .integers 2, .close, .fieldSize 9, .text 2]

theorem replies_as_new_sample :
    replies (ofParts sampleRecord 7 (samplePayload 65)) sampleRequests =
        [.ok (.binary (some [170, 187])), .error (.encodingMismatch 2 .text .integers), .ok .done,
          .ok (.size none), .ok (.text (some "A"))] ∧
      (∃ index, (afterAll sampleRequests (ofParts sampleRecord 7 (samplePayload 65))).known =
        some index ∧ ChunkIndex.decode (samplePayload 65) 2 = .ok index) ∧
      afterAll (sampleRequests ++ [.close]) (ofParts sampleRecord 7 (samplePayload 65)) =
        ofParts sampleRecord 7 (samplePayload 65) := by
  obtain ⟨hreplies, -, -, -, hkept, -, hclose⟩ :=
    replies_as_new sampleRecord 7 (samplePayload 65) sampleRequests
  obtain ⟨-, -, -, -, -, hknown, -⟩ :=
    replies_as_new sampleRecord 7 (samplePayload 65) sampleRequests.dropLast
  have hindex : ChunkIndex.decode (samplePayload 65) 2 = .ok ⟨4, [⟨4, 6, 2⟩, ⟨6, 7, 1⟩]⟩ := by rfl
  have hlast := hknown (.text 2) 2 ⟨2, .text⟩ _ rfl rfl hindex
  exact ⟨hreplies.trans (by decide +kernel), ⟨_, hlast, hkept _ hlast⟩, hclose⟩

end Chunk
end ChunkStore
