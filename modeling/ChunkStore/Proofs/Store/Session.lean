import ChunkStore.Proofs.Store.Memory

namespace ChunkStore

open Attempt Transaction

namespace Plain

variable {scope : StoreId}

lemma data_loadChunk (scope : StoreId) (timestamp : Int64) (row : ChunkRow) :
    Respects SameData (loadChunk scope timestamp row) :=
  (data_resolve _ _).bind fun _ => respects_pure _

lemma still_resolve (scope : StoreId) (id : UInt64) : Respects Still (resolve scope id) := by
  apply (opening_still.selectDescriptor id).bind
  intro row
  split
  · exact respects_throw _
  · exact respects_ofExcept _

lemma still_loadChunk (scope : StoreId) (timestamp : Int64) (row : ChunkRow) :
    Respects Still (loadChunk scope timestamp row) :=
  (still_resolve _ _).bind fun _ => respects_pure _

lemma still_loadChunks (scope : StoreId) (rows : List (Int64 × ChunkRow)) :
    Respects Still (loadChunks scope rows) := by
  induction rows with
  | nil => exact respects_pure _
  | cons r rows ih =>
    exact (still_loadChunk _ _ _).bind fun _ => ih.bind fun _ => respects_pure _

lemma mode_storeChunk (scope : StoreId) (chunk : Chunk) :
    Respects SameMode (storeChunk scope chunk) := by
  refine Respects.bind ?_ fun d => (mode_insertChunk _ _).bind fun _ => respects_pure _
  simp only [intern]
  split
  · exact respects_pure _
  · exact (mode_insertDescriptor _).map _

lemma storeChunk_ok {chunk : Chunk} {t u : Transaction} {d : Descriptor}
    (h : storeChunk scope chunk t = .ok d u) :
    ∃ v, intern scope chunk.descriptor t = .ok d v ∧
      insertChunk chunk.timestamp ⟨d.persistedId, chunk.payload⟩ v = .ok () u := by
  obtain ⟨e, v, hd, hrest⟩ := of_bind_ok h
  obtain ⟨_, w, hc, hrest⟩ := of_bind_ok hrest
  obtain ⟨rfl, rfl⟩ := of_pure_ok hrest
  exact ⟨v, hd, hc⟩

lemma keeps_of_storeChunk {chunk : Chunk} {t u : Transaction} {d : Descriptor} (hi : t.view.Inverse)
    (hf : Faithful scope chunk.descriptor t.view) (h : storeChunk scope chunk t = .ok d u) :
    u.view.Keeps scope d := by
  obtain ⟨v, hd, hc⟩ := storeChunk_ok h
  have hids := (ids_insertChunk _ _).of_ok hc
  exact (keeps_of_intern hi hf hd).extend (Container.extends_of_ids hids)

lemma transact_ok {α : Type} {writing : Bool} {x : Attempt Transaction α} {c : Container}
    {t : Transaction} {a : α} (h : x (.begin writing c) = .ok a t) :
    transact writing x c = .ok a (t.commit c) := by
  simp only [transact, h]

lemma transact_error {α : Type} {writing : Bool} {x : Attempt Transaction α} {c : Container}
    {t : Transaction} {e : Error} (h : x (.begin writing c) = .error e t) :
    transact writing x c = .error e c := by
  simp only [transact, h]

lemma commit_of_storeChunk {chunk : Chunk} {c : Container} {u : Transaction} {d : Descriptor}
    (h : storeChunk scope chunk (.begin true c) = .ok d u) : u.commit c = u.view :=
  commit_eq_view (mode_storeChunk scope chunk) h

lemma put_cases (scope : StoreId) (chunk : Chunk) (c : Container) :
    (∃ e u, storeChunk scope chunk (.begin true c) = .error e u ∧
        put scope chunk c = .error e c) ∨
      ∃ d u, storeChunk scope chunk (.begin true c) = .ok d u ∧
        put scope chunk c = .ok () u.view := by
  cases h : storeChunk scope chunk (.begin true c) with
  | error e u => exact .inl ⟨e, u, rfl, map_error (transact_error h) _⟩
  | ok d u =>
    refine .inr ⟨d, u, rfl, ?_⟩
    rw [put, map_ok (transact_ok h), commit_of_storeChunk h]

def Serves (scope : StoreId) (c : Container) (r : Request) : Prop :=
  ∀ chunk, r = .put chunk → Faithful scope chunk.descriptor c

lemma serves_of_reading {c : Container} {r : Request} (h : r.isWriting = false) :
    Serves scope c r := fun chunk hr => by
  rw [hr] at h
  cases h

end Plain

namespace Session

variable {writable : Bool} {scope : StoreId} {s : Session} {c : Container} {t : Transaction} {α : Type}

lemma agree_resolve (hs : s.Sound writable scope t.view) (id : UInt64) :
    Agree (FitsTransaction writable scope) (resolve id (s, t)) (Plain.resolve scope id t) := by
  simp only [resolve]
  cases hf : s.recent.filter (·.persistedId = id) with
  | some d =>
    obtain ⟨hr, hid⟩ := Option.filter_eq_some_iff.1 hf
    obtain rfl : d.persistedId = id := by simpa using hid
    rw [Plain.resolve_of_keeps (hs.recent d hr)]
    exact agree_ok d ⟨rfl, hs⟩
  | none =>
    have hcache : Agree (Cache.Fits scope) (Cache.get s.id id (s.cache, t)) (Plain.resolve scope id t) := by
      rw [hs.id_eq]
      exact Cache.agree_get ⟨rfl, hs.inverse, hs.cache⟩ id
    have hgrow := Container.extends_of_ids (SameData.ids (Plain.data_resolve scope id t))
    obtain ⟨d, s', t', hx, hy, hfit⟩ | ⟨e, s', t', hx, hy, hfit⟩ := (agree_inCache hs hcache hgrow).cases
    · rw [hy]
      simp only [hx]
      exact agree_ok d ⟨hfit.1, hfit.2.remember (Plain.keeps_of_resolve hy).2⟩
    · rw [hy]
      simp only [hx]
      exact agree_error e hfit

lemma agree_loadChunk (hs : s.Sound writable scope t.view) (timestamp : Int64) (row : ChunkRow) :
    Agree (FitsTransaction writable scope) (loadChunk timestamp row (s, t))
      (Plain.loadChunk scope timestamp row t) :=
  (agree_resolve hs _).bind fun _ _ _ h => agree_ok _ h

lemma agree_loadChunks (rows : List (Int64 × ChunkRow)) : ∀ {s : Session} {t : Transaction},
    s.Sound writable scope t.view →
      Agree (FitsTransaction writable scope) (loadChunks rows (s, t))
        (Plain.loadChunks scope rows t) := by
  induction rows with
  | nil => exact fun hs => agree_ok _ ⟨rfl, hs⟩
  | cons r rows ih =>
    intro s t hs
    refine (agree_loadChunk hs _ _).bind fun c s' t' ⟨ht, hs'⟩ => ?_
    obtain ⟨s', u⟩ := s'
    obtain rfl : u = t' := ht
    exact (ih hs').bind fun cs _ _ h => agree_ok _ h

lemma agree_transact_false {x : Attempt (Session × Transaction) α} {y : Attempt Transaction α}
    (h : Agree (FitsTransaction writable scope) (x (s, .begin false c)) (y (.begin false c)))
    (hy : Respects Still y) :
    Agree (FitsContainer writable scope) (transact false x (s, c)) (Plain.transact false y c) := by
  obtain ⟨a, ⟨s', u⟩, t, hx, hyt, ht, hs⟩ | ⟨e, ⟨s', u⟩, t, hx, hyt, ht, hs⟩ := h.cases
  · obtain rfl : u = t := ht
    obtain rfl : u = .begin false c := hy.of_ok hyt rfl
    rw [transact_ok hx, Plain.transact_ok hyt]
    exact agree_ok a ⟨rfl, hs⟩
  · obtain rfl : u = t := ht
    obtain rfl : u = .begin false c := hy.of_error hyt rfl
    rw [transact_error hx, Plain.transact_error hyt]
    exact agree_error e ⟨rfl, hs⟩

lemma agree_transact_inTransaction (writing : Bool) {x : Attempt Transaction α}
    (hx : Respects SameIds x) (hs : s.Sound writable scope c) :
    Agree (FitsContainer writable scope) (transact writing (inTransaction x) (s, c))
      (Plain.transact writing x c) := by
  cases h : x (.begin writing c) with
  | ok a t =>
    rw [transact_ok (inTransaction_ok h), Plain.transact_ok h]
    refine agree_ok a ⟨rfl, ?_⟩
    rw [commit]
    split
    · exact hs.congr (hx.of_ok h)
    · exact hs
  | error e t =>
    rw [transact_error (inTransaction_error h), Plain.transact_error h]
    exact agree_error e ⟨rfl, hs⟩

lemma agree_find? (hs : s.Sound writable scope c) (timestamp : Int64) :
    Agree (FitsContainer writable scope) (find? timestamp (s, c)) (Plain.find? scope timestamp c) := by
  apply agree_transact_false
  · refine (agree_inTransaction (respects_ids (opening_data.selectChunk _)) hs).bind fun row s' t' ⟨ht, hs'⟩ => ?_
    obtain ⟨s', u⟩ := s'
    obtain rfl : u = t' := ht
    cases row with
    | none => exact agree_ok _ ⟨rfl, hs'⟩
    | some row => exact (agree_loadChunk hs' _ _).bind fun _ _ _ h => agree_ok _ h
  · apply (opening_still.selectChunk _).bind
    intro row
    split
    · exact respects_pure _
    · exact (Plain.still_loadChunk _ _ _).bind fun _ => respects_pure _

lemma agree_findBetween (hs : s.Sound writable scope c) (first last : Int64) :
    Agree (FitsContainer writable scope) (findBetween first last (s, c))
      (Plain.findBetween scope first last c) := by
  apply agree_transact_false
  · refine (agree_inTransaction (respects_ids (opening_data.selectChunks _ _)) hs).bind fun rows s' t' ⟨ht, hs'⟩ => ?_
    obtain ⟨s', u⟩ := s'
    obtain rfl : u = t' := ht
    exact agree_loadChunks rows hs'
  · exact (opening_still.selectChunks _ _).bind fun rows => Plain.still_loadChunks _ rows

lemma agree_storeChunk (hs : s.Sound writable scope t.view) (hw : t.writing = true) (chunk : Chunk) :
    Agree (FitsTransaction writable scope) (storeChunk chunk (s, t))
      (Plain.storeChunk scope chunk t) := by
  have hcache : Agree (Cache.Fits scope) (Cache.intern s.id chunk.descriptor (s.cache, t))
      (Plain.intern scope chunk.descriptor t) := by
    rw [hs.id_eq]
    exact Cache.agree_intern ⟨rfl, hs.inverse, hs.cache⟩ hw _
  have hgrow := (Plain.grows_intern scope chunk.descriptor hs.inverse).grows
  refine (agree_inCache hs hcache hgrow).bind fun d s' t' ⟨ht, hs'⟩ => ?_
  obtain ⟨s', u⟩ := s'
  obtain rfl : u = t' := ht
  exact (agree_inTransaction (ids_insertChunk _ _) hs').bind fun _ _ _ h => agree_ok _ h

lemma agree_put (hs : s.Sound writable scope c) {chunk : Chunk}
    (hf : Plain.Faithful scope chunk.descriptor c) :
    Agree (FitsContainer writable scope) (put chunk (s, c)) (Plain.put scope chunk c) := by
  obtain ⟨d, ⟨s', u⟩, t, hx, hy, ht, hs'⟩ | ⟨e, ⟨s', u⟩, t, hx, hy, ht, hs'⟩ :=
    (agree_storeChunk (t := .begin true c) hs rfl chunk).cases
  · obtain rfl : u = t := ht
    have hkeeps := Plain.keeps_of_storeChunk (t := .begin true c) hs.inverse hf hy
    rw [Plain.put, map_ok (Plain.transact_ok hy)]
    simp only [put, transact_ok hx, Plain.commit_of_storeChunk hy]
    exact agree_ok () ⟨rfl, hs'.remember hkeeps⟩
  · rw [Plain.put, map_error (Plain.transact_error hy)]
    simp only [put, transact_error hx]
    -- what was learned is about a container that is no more
    exact agree_error e ⟨rfl, hs.inverse, hs'.writable_eq, hs'.id_eq, Cache.sound_empty _ _ _,
      fun e he => by cases he⟩

lemma agree_maxTimestamp (hs : s.Sound writable scope c) :
    Agree (FitsContainer writable scope) (maxTimestamp (s, c)) (Plain.maxTimestamp c) :=
  agree_transact_inTransaction _ (respects_ids opening_data.selectMaxTimestamp) hs

lemma agree_metadata? (hs : s.Sound writable scope c) (key : String) :
    Agree (FitsContainer writable scope) (metadata? key (s, c)) (Plain.metadata? key c) :=
  agree_transact_inTransaction _ (respects_ids (opening_data.selectMeta key)) hs

lemma agree_epoch (hs : s.Sound writable scope c) :
    Agree (FitsContainer writable scope) (epoch (s, c)) (Plain.epoch c) := by
  apply (agree_metadata? hs _).bind
  intro text _ _ h
  cases text with
  | none => exact agree_ok _ h
  | some text =>
    dsimp only
    cases Decimal.readInt64 text with
    | ok n => exact agree_ok n h
    | error flaw => exact agree_error _ h

lemma agree_setEpoch (hs : s.Sound writable scope c) (n : Int64) :
    Agree (FitsContainer writable scope) (setEpoch n (s, c)) (Plain.setEpoch n c) :=
  (agree_transact_inTransaction _
    (respects_ids (opening_data.insertEpoch data_insertMeta n)) hs).checked ⟨rfl, hs⟩ _ _

lemma agree_putMetadata (hs : s.Sound writable scope c) (key value : String) :
    Agree (FitsContainer writable scope) (putMetadata key value (s, c))
      (Plain.putMetadata key value c) :=
  (agree_transact_inTransaction _ (respects_ids (data_insertMeta key value)) hs).checked
    ⟨rfl, hs⟩ _ _

theorem agree_serve (hs : s.Sound writable scope c) {r : Request} (hr : Plain.Serves scope c r) :
    Agree (FitsContainer writable scope) (r.serve (s, c)) (Plain.serve scope r c) := by
  cases r with
  | put chunk => exact (agree_put hs (hr chunk rfl)).map _
  | find t => exact (agree_find? hs t).map _
  | findBetween t u => exact (agree_findBetween hs t u).map _
  | maxTimestamp => exact (agree_maxTimestamp hs).map _
  | epoch => exact (agree_epoch hs).map _
  | setEpoch n => exact (agree_setEpoch hs n).map _
  | metadata k => exact (agree_metadata? hs k).map _
  | putMetadata k v => exact (agree_putMetadata hs k v).map _

end Session
end ChunkStore
