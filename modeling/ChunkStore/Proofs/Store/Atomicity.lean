import ChunkStore.Proofs.Store.Basic
import ChunkStore.Proofs.Transaction.Still

namespace ChunkStore

open Attempt Transaction

namespace Session

variable {μ α β : Type}

abbrev StillBeside : μ × Transaction → μ × Transaction → Prop := InvImage Still Prod.snd

section Beside

variable {R : Transaction → Transaction → Prop}

lemma respects_inTransaction {x : Attempt Transaction α} (hx : Respects R x) :
    Respects (InvImage R Prod.snd) (inTransaction x : Attempt (μ × Transaction) α) :=
  respects_within Prod.snd hx fun _ _ => rfl

lemma respects_inCache {x : Attempt (Cache × Transaction) α}
    (hx : Respects (InvImage R Prod.snd) x) : Respects (InvImage R Prod.snd) (inCache x) :=
  respects_within (fun s : Session × Transaction => (s.1.cache, s.2)) hx fun _ _ => rfl

variable [Std.Refl R] [Trans R R R]

lemma respects_get (hR : Opening R) (scope : StoreId) (id : UInt64) :
    Respects (InvImage R Prod.snd) (Cache.get scope id) := fun (k, t) => by
  simp only [Cache.get]
  split
  · exact Std.Refl.refl t
  · split
    next h => exact (hR.selectDescriptor id).of_error h
    next h => exact (hR.selectDescriptor id).of_ok h
    next h =>
      split
      · exact (hR.selectDescriptor id).of_ok h
      · exact (hR.selectDescriptor id).of_ok h

lemma respects_resolve (hR : Opening R) (id : UInt64) :
    Respects (InvImage R Prod.snd) (resolve id) := fun (s, t) => by
  have hget := respects_inCache (respects_get hR s.id id)
  simp only [resolve]
  split
  · exact Std.Refl.refl t
  · split
    next h =>
      have ht := hget.of_ok h
      exact ht
    next h => exact hget.of_error h

omit [Trans R R R] in
lemma respects_intern (hins : ∀ bytes, Respects R (insertDescriptor bytes)) (scope : StoreId)
    (d : Descriptor) : Respects (InvImage R Prod.snd) (Cache.intern scope d) := fun (k, t) => by
  simp only [Cache.intern]
  split
  · exact Std.Refl.refl t
  · split
    · exact Std.Refl.refl t
    · split
      next h => exact (hins _).of_error h
      next h => exact (hins _).of_ok h

end Beside

section

variable {R : Session × Transaction → Session × Transaction → Prop} [Std.Refl R] [Trans R R R]

lemma respects_loadChunk (hR : ∀ id, Respects R (resolve id)) (timestamp : Int64) (row : ChunkRow) :
    Respects R (loadChunk timestamp row) :=
  (hR _).bind fun _ => respects_pure _

lemma respects_loadChunks (hR : ∀ id, Respects R (resolve id)) (rows : List (Int64 × ChunkRow)) :
    Respects R (loadChunks rows) := by
  induction rows with
  | nil => exact respects_pure _
  | cons r rows ih =>
    exact (respects_loadChunk hR _ _).bind fun _ => ih.bind fun _ => respects_pure _

lemma respects_storeChunk (hintern : ∀ scope d, Respects R (inCache (Cache.intern scope d)))
    (hinsert : ∀ timestamp row, Respects R (inTransaction (insertChunk timestamp row)))
    (chunk : Chunk) : Respects R (storeChunk chunk) := fun (s, t) =>
  Respects.bind (hintern s.id chunk.descriptor)
    (fun _ => (hinsert _ _).bind fun _ => respects_pure _) (s, t)

end

def Reads (x : Attempt (μ × Container) α) : Prop := Respects (InvImage Eq Prod.snd) x

def Atomic (x : Attempt (μ × Container) α) : Prop :=
  ∀ s e, outcome (x s) = .error e → (state (x s)).2 = s.2

lemma Reads.atomic {x : Attempt (μ × Container) α} (hx : Reads x) : Atomic x :=
  fun s _ _ => (hx s).symm

lemma Atomic.map {x : Attempt (μ × Container) α} (hx : Atomic x) (f : α → β) : Atomic (f <$> x) :=
  fun s e he => by
    rw [state_map]
    rw [outcome_map] at he
    cases h : outcome (x s) with
    | ok a => simp [h, Except.map] at he
    | error e' => exact hx s e' h

lemma Atomic.checked {x : Attempt (μ × Container) α} (hx : Atomic x) (p : Prop) [Decidable p]
    (e : Error) :
    Atomic (do
      if p then throw e
      x) := fun s e' he => by
  by_cases hp : p
  · rw [if_pos hp, bind_error (throw_run e s), state_error]
  · rw [if_neg hp] at he ⊢
    exact hx s e' he

lemma atomic_transact (writing : Bool) (x : Attempt (μ × Transaction) α) :
    Atomic (transact writing x) := fun (m, c) e he => by
  cases h : x (m, .begin writing c) with
  | ok a s => simp [transact_ok h] at he
  | error e' s => rw [transact_error h, state_error]

lemma reads_transact {x : Attempt (μ × Transaction) α} (hx : Respects StillBeside x) :
    Reads (transact false x) := fun (m, c) => by
  cases h : x (m, .begin false c) with
  | ok a s =>
    obtain ⟨n, t⟩ := s
    obtain rfl : t = .begin false c := hx.of_ok h rfl
    rw [transact_ok h]
    rfl
  | error e s =>
    rw [transact_error h]
    rfl

lemma reads_find? (timestamp : Int64) : Reads (find? timestamp) := by
  refine reads_transact ((respects_inTransaction (opening_still.selectChunk _)).bind fun row => ?_)
  cases row with
  | none => exact respects_pure _
  | some row => exact (respects_loadChunk (respects_resolve opening_still) _ _).bind fun _ => respects_pure _

lemma reads_findBetween (first last : Int64) : Reads (findBetween first last) :=
  reads_transact ((respects_inTransaction (opening_still.selectChunks _ _)).bind fun _ =>
    respects_loadChunks (respects_resolve opening_still) _)

lemma reads_maxTimestamp : Reads maxTimestamp :=
  reads_transact (respects_inTransaction opening_still.selectMaxTimestamp)

lemma reads_metadata? (key : String) : Reads (metadata? key) :=
  reads_transact (respects_inTransaction (opening_still.selectMeta key))

lemma respects_epoch {R : Session × Container → Session × Container → Prop} [Std.Refl R]
    [Trans R R R] (hR : ∀ key, Respects R (metadata? key)) : Respects R epoch := by
  apply (hR _).bind
  intro text
  split
  · exact respects_pure _
  · split
    · exact respects_pure _
    · exact respects_throw _

lemma reads_epoch : Reads epoch := respects_epoch reads_metadata?

lemma atomic_put (chunk : Chunk) : Atomic (put chunk) := fun s e he => by
  have hs := atomic_transact true (storeChunk chunk) s
  rw [put] at he ⊢
  split
  next h => simp [h] at he
  next h =>
    rw [h] at hs
    exact hs _ rfl

lemma atomic_setEpoch (n : Int64) : Atomic (setEpoch n) :=
  (atomic_transact true _).checked _ _

lemma atomic_putMetadata (key value : String) : Atomic (putMetadata key value) :=
  (atomic_transact true _).checked _ _

end Session

lemma Request.atomic_serve (r : Request) : Session.Atomic r.serve := by
  cases r with
  | put c => exact (Session.atomic_put c).map _
  | find t => exact (Session.reads_find? t).atomic.map _
  | findBetween t u => exact (Session.reads_findBetween t u).atomic.map _
  | maxTimestamp => exact Session.reads_maxTimestamp.atomic.map _
  | epoch => exact Session.reads_epoch.atomic.map _
  | setEpoch n => exact (Session.atomic_setEpoch n).map _
  | metadata k => exact (Session.reads_metadata? k).atomic.map _
  | putMetadata k v => exact (Session.atomic_putMetadata k v).map _

lemma Request.reads_serve {r : Request} (h : r.isWriting = false) : Session.Reads r.serve := by
  cases r with
  | find t => exact (Session.reads_find? t).map _
  | findBetween t u => exact (Session.reads_findBetween t u).map _
  | maxTimestamp => exact Session.reads_maxTimestamp.map _
  | epoch => exact Session.reads_epoch.map _
  | metadata k => exact (Session.reads_metadata? k).map _
  | put c => cases h
  | setEpoch n => cases h
  | putMetadata k v => cases h

def Store.isReader (s : Store) : Bool := s.session?.any fun session => !session.writable

namespace Operation

variable {s : Store} {held : Bool} {c : Container}

lemma container_openFile {writable : Bool} {entropy : Uuid}
    (h : (∃ e, outcome (Store.openFile writable entropy (s, .container held c)) = .error e) ∨
      writable = false) :
    (state (Store.openFile writable entropy (s, .container held c))).2.container? = some c := by
  by_cases hs : s.phase = .initial
  · obtain ⟨e, he⟩ | ⟨d, hd, ⟨e, t, -, he⟩ | ⟨version, id, t, hu, he⟩⟩ :=
      Store.openFile_cases hs writable entropy (.container held c)
    · rw [he]
      rfl
    · rw [he, File.eq_of_contents? hd]
      rfl
    · obtain rfl : writable = false := h.resolve_left fun ⟨e, h⟩ => by simp [he] at h
      obtain rfl : t = .begin false d := (still_setUp entropy).of_ok hu rfl
      rw [he, File.eq_of_contents? hd]
      rfl
  · rw [Store.openFile_again hs]
    rfl

lemma container_request {r : Request}
    (h : (∃ e, outcome (r.run (s, c)) = .error e) ∨ r.isWriting = false ∨ s.isReader = true) :
    (state (r.run (s, c))).2 = c := by
  rw [Request.run_eq] at h ⊢
  cases hs : s.session? with
  | none => rw [Store.inSession_closed hs, state_error]
  | some session =>
    have hp := Store.phase_of_session? hs
    by_cases hw : r.isWriting = true → session.writable = true
    · rw [Store.inSession_opened hp hw, outcome_mapState] at h
      rw [Store.inSession_opened hp hw, state_mapState]
      obtain ⟨e, he⟩ | h := h
      · exact r.atomic_serve _ e he
      · have hr : r.isWriting = false := by
          cases hr : r.isWriting with
          | false => rfl
          | true => simp [hr, Store.isReader, hs, hw hr] at h
        exact (Request.reads_serve hr _).symm
    · obtain ⟨hr, hn⟩ : r.isWriting = true ∧ session.writable = false := by simpa using hw
      rw [hr, Store.inSession_notWritable hp hn, state_error]

theorem container_unchanged (op : Operation) (s : Store) (held : Bool) (c : Container)
    (h : (∃ e, outcome (op.run (s, .container held c)) = .error e) ∨
      op.isWriting = false ∨ s.isReader = true) :
    (state (op.run (s, .container held c))).2.container? = some c := by
  cases op with
  | openFile writable entropy =>
    have hmap := outcome_map (fun _ => Answer.done) (Store.openFile writable entropy)
      (s, .container held c)
    rw [run, state_map]
    obtain ⟨e, he⟩ | hw | hr := h
    · cases ho : outcome (Store.openFile writable entropy (s, .container held c)) with
      | ok _ => simp [run, hmap, ho, Except.map] at he
      | error e' => exact container_openFile (.inl ⟨e', ho⟩)
    · exact container_openFile (.inr hw)
    · have hs : s.phase ≠ .initial := fun hs => by simp [Store.isReader, Store.session?, hs] at hr
      rw [Store.openFile_again hs]
      rfl
  | close =>
    simp only [run, state_ok, Store.close]
    split <;> rfl
  | ask r =>
    rw [run, Store.onFile_container, outcome_mapState] at h
    rw [run, Store.onFile_container, state_mapState]
    exact congrArg some (container_request h)

def sampleId : StoreId := .fresh .zero

def sampleWriter : Store :=
  { Store.create "chunks" {} with phase := .opened (.start true sampleId 2), version := 2 }

def sampleForeign : Container :=
  { descriptors := .stored .empty, contents := .stored .empty, chunks := .foreign ⟨"u8", "u8"⟩ }

def samplePut : Operation := .ask (.put (.ofParts .blank 7 [1, 2]))

/-- The chunk's descriptor has been given a number by the time the put fails. -/
theorem container_unchanged_samplePut :
    outcome (samplePut.run (sampleWriter, .container true sampleForeign)) =
        .error (.file .insertChunk (.tableTypes "track" "u8" "u8")) ∧
      (state (samplePut.run (sampleWriter, .container true sampleForeign))).2.container? =
        some sampleForeign := by
  have h : outcome (samplePut.run (sampleWriter, .container true sampleForeign)) =
      .error (.file .insertChunk (.tableTypes "track" "u8" "u8")) := by
    rfl
  exact ⟨h, container_unchanged _ _ _ _ (.inl ⟨_, h⟩)⟩

end Operation
end ChunkStore
