import ChunkStore.Proofs.Store.Atomicity
import ChunkStore.Store.Flat

namespace ChunkStore

open Attempt Transaction

namespace Session

variable {τ α : Type}

abbrev SameScope : Session × τ → Session × τ → Prop := InvImage Eq fun s => (s.1.writable, s.1.id)

lemma scope_inTransaction (x : Attempt Transaction α) : Respects SameScope (inTransaction x) :=
  fun (s, t) => by
    rw [inTransaction, within_run, state_mapState]
    rfl

lemma scope_inCache (x : Attempt (Cache × τ) α) : Respects SameScope (inCache x) := fun (s, t) => by
  rw [inCache, within_run, state_mapState]
  rfl

lemma scope_resolve (id : UInt64) : Respects SameScope (resolve id) := fun (s, t) => by
  have hget := scope_inCache (Cache.get s.id id) (s, t)
  simp only [resolve]
  split
  · rfl
  · split
    next h =>
      rw [h] at hget
      exact hget
    next h =>
      rw [h] at hget
      exact hget

lemma scope_transact (writing : Bool) {x : Attempt (Session × Transaction) α}
    (hx : Respects SameScope x) : Respects SameScope (transact writing x) := fun (s, c) => by
  have h := hx (s, .begin writing c)
  rw [transact]
  split
  next hrun =>
    rw [hrun] at h
    exact h
  next hrun =>
    rw [hrun] at h
    exact h

lemma scope_put (chunk : Chunk) : Respects SameScope (put chunk) := fun s => by
  have h := scope_transact true (respects_storeChunk (fun _ _ => scope_inCache _)
    (fun _ _ => scope_inTransaction _) chunk) s
  rw [put]
  split
  next hrun =>
    rw [hrun] at h
    exact h
  next hrun =>
    rw [hrun] at h
    exact h

lemma scope_find? (timestamp : Int64) : Respects SameScope (find? timestamp) := by
  apply scope_transact
  apply (scope_inTransaction _).bind
  intro row
  split
  · exact respects_pure _
  · exact (respects_loadChunk scope_resolve _ _).bind fun _ => respects_pure _

lemma scope_metadata? (key : String) : Respects SameScope (metadata? key) :=
  scope_transact false (scope_inTransaction _)

lemma scope_epoch : Respects SameScope epoch := respects_epoch scope_metadata?

lemma scope_setEpoch (n : Int64) : Respects SameScope (setEpoch n) :=
  (scope_transact true (scope_inTransaction _)).checked _ _

lemma scope_putMetadata (key value : String) : Respects SameScope (putMetadata key value) :=
  (scope_transact true (scope_inTransaction _)).checked _ _

theorem scope_serve (r : Request) : Respects SameScope r.serve := by
  cases r with
  | put c => exact (scope_put c).map _
  | find t => exact (scope_find? t).map _
  | findBetween t u =>
    exact (scope_transact false ((scope_inTransaction _).bind fun _ =>
      respects_loadChunks scope_resolve _)).map _
  | maxTimestamp => exact (scope_transact false (scope_inTransaction _)).map _
  | epoch => exact scope_epoch.map _
  | setEpoch n => exact (scope_setEpoch n).map _
  | metadata k => exact (scope_metadata? k).map _
  | putMetadata k v => exact (scope_putMetadata k v).map _

end Session

namespace StoreState

variable {state : StoreState}

lemma isOpen_eq_true : state.isOpen = true ↔ state = .openReadOnly ∨ state = .openReadWrite := by
  cases state <;> simp [isOpen]

lemma isOpen_eq_false : state.isOpen = false ↔ state = .initial ∨ state = .closed := by
  cases state <;> simp [isOpen]

lemma ne_initial (ho : state.isOpen = true) : state ≠ .initial := by
  rintro rfl
  cases ho

lemma isOpen_opened (writable : Bool) : (opened writable).isOpen = true := by
  cases writable <;> rfl

end StoreState

namespace FlatStore

structure Consistent (s : FlatStore) (f : File) : Prop where
  holds : s.holds = s.state.isOpen
  id : s.id?.isSome = s.state.isOpen
  cache : s.state.isOpen = false → s.cache = .empty s.cache.capacity
  recent : s.state.isOpen = false → s.recent = none
  capacity : s.state = .initial → s.cache.capacity = s.config.descriptorCacheCapacity
  held : s.holds = true → ∃ c, f = .container true c

variable {s : FlatStore} {f : File} {r : Request}

lemma consistent_create (path : String) (config : StoreConfig) (f : File) :
    (create path config).Consistent f where
  holds := rfl
  id := rfl
  cache _ := rfl
  recent _ := rfl
  capacity _ := rfl
  held h := by cases h

lemma Consistent.meanwhile (hs : s.Consistent f) (hfree : s.holds = false) (g : File) :
    s.Consistent g :=
  { hs with held := fun h => by simp [hfree] at h }

lemma consistent_close (hs : s.Consistent f) : (s.close f).1.Consistent (s.close f).2 := by
  rw [close]
  split
  · exact ⟨rfl, rfl, fun _ => rfl, fun _ => rfl, nofun, nofun⟩
  next ho =>
    have ho : s.state.isOpen = false := by simpa using ho
    have hno : s.holds = false := hs.holds.trans ho
    exact ⟨hno, rfl, fun _ => hs.cache ho, fun _ => hs.recent ho, nofun, by simp [hno]⟩

lemma openFile_again (hs : s.state ≠ .initial) (writable : Bool) (entropy : Uuid) (f : File) :
    openFile writable entropy (s, f) = .error .alreadyOpened (s, f) := if_neg hs

lemma openFile_cases (hs : s.state = .initial) (writable : Bool) (entropy : Uuid) (f : File) :
    (∃ e, File.acquire s.path writable s.config f = .error e f ∧
        openFile writable entropy (s, f) = .error e ({ s with state := .closed }, f)) ∨
      ∃ c, File.acquire s.path writable s.config f = .ok c (.container true c) ∧
        ((∃ e t, Upgrade.setUp writable entropy (.begin writable c) = .error e t ∧
            openFile writable entropy (s, f) =
              .error e (close { s with holds := true, state := .opened writable }
                (.container true c))) ∨
          ∃ version id t, Upgrade.setUp writable entropy (.begin writable c) = .ok (version, id) t ∧
            openFile writable entropy (s, f) =
              .ok () ({ s with holds := true, state := .opened writable, version, id := some id },
                .container true (t.commit c))) := by
  obtain ⟨e, he⟩ | ⟨c, hc, ha⟩ := File.acquire_cases s.path writable s.config f
  · exact .inl ⟨e, he, by simp only [openFile, if_pos hs, he]⟩
  · refine .inr ⟨c, ha, ?_⟩
    cases h : Upgrade.setUp writable entropy (.begin writable c) with
    | error e t =>
      refine .inl ⟨e, t, rfl, ?_⟩
      simp only [openFile, if_pos hs, ha, transact_error (inTransaction_error h)]
    | ok u t =>
      refine .inr ⟨u.1, u.2, t, rfl, ?_⟩
      simp only [openFile, if_pos hs, ha, transact_ok (inTransaction_ok h)]

lemma close_opened (hs : s.holds = true) (ho : s.state.isOpen = true) (f : File) :
    s.close f = ({ s with recent := none, cache := s.cache.clear, holds := false, state := .closed },
      f.release) := by
  rw [close, if_pos ho, if_pos hs]

lemma consistent_openFile (hs : s.Consistent f) (writable : Bool) (entropy : Uuid) :
    (Attempt.state (openFile writable entropy (s, f))).1.Consistent
      (Attempt.state (openFile writable entropy (s, f))).2 := by
  by_cases hi : s.state = .initial
  · have hno := StoreState.isOpen_eq_false.2 (.inl hi)
    obtain ⟨e, -, he⟩ | ⟨c, -, ⟨e, t, -, he⟩ | ⟨version, id, t, -, he⟩⟩ :=
      openFile_cases hi writable entropy f
    · have hfree : s.holds = false := hs.holds.trans hno
      rw [he]
      exact ⟨hfree, rfl, fun _ => hs.cache hno, fun _ => hs.recent hno, nofun, by simp [hfree]⟩
    · rw [he, state_error, close_opened rfl (StoreState.isOpen_opened writable)]
      exact ⟨rfl, rfl, fun _ => rfl, fun _ => rfl, nofun, nofun⟩
    · have ho := StoreState.isOpen_opened writable
      rw [he]
      refine ⟨ho.symm, ?_, by simp [ho], by simp [ho],
        fun h => absurd h (StoreState.ne_initial ho), fun _ => ⟨_, rfl⟩⟩
      simp [id?, ho]
  · rwa [openFile_again hi]

def current (s : FlatStore) (id : StoreId) : Session :=
  ⟨s.state = .openReadWrite, id, s.cache, s.recent⟩

lemma session_closed (ho : s.state.isOpen = false) (writing : Bool) :
    s.session writing = .error .storeClosed := by
  obtain h | h := StoreState.isOpen_eq_false.1 ho
  · simp [session, h]
  · simp [session, h]

lemma session_notWritable (hs : s.state = .openReadOnly) : s.session true = .error .notWritable := by
  simp [session, hs]

lemma Consistent.opened (hs : s.Consistent f) (ho : s.state.isOpen = true) :
    ∃ id c, s.id? = some id ∧ f = .container true c ∧ s.phase = .opened (s.current id) ∧
      ∀ writing, (writing = true → s.state = .openReadWrite) →
        s.session writing = .ok (s.current id) := by
  have hh : s.holds = true := hs.holds.trans ho
  obtain ⟨id, hid⟩ := Option.isSome_iff_exists.1 (hs.id.trans ho)
  have hid' : s.id = some id := by simpa [id?, ho] using hid
  obtain ⟨c, hc⟩ := hs.held hh
  refine ⟨id, c, hid, hc, ?_, fun writing hw => ?_⟩
  · obtain h | h := StoreState.isOpen_eq_true.1 ho
    · simp [phase, current, h, hid']
    · simp [phase, current, h, hid']
  · obtain h | h := StoreState.isOpen_eq_true.1 ho
    · cases writing with
      | false => simp [session, current, h, hh, hid']
      | true => simp [h] at hw
    · simp [session, current, h, hh, hid']

lemma ask_closed (ho : s.state.isOpen = false) (r : Request) (f : File) :
    run (.ask r) (s, f) = .error .storeClosed (s, f) := by
  apply Store.onFile_refused
  intro c
  simp only [ask, session_closed ho]

lemma ask_notWritable (hs : s.state = .openReadOnly) (hr : r.isWriting = true) (f : File) :
    run (.ask r) (s, f) = .error .notWritable (s, f) := by
  apply Store.onFile_refused
  intro c
  simp only [ask, hr, session_notWritable hs]

lemma ask_opened {session : Session} (hs : s.session r.isWriting = .ok session) (held : Bool)
    (c : Container) : run (.ask r) (s, .container held c) =
      mapState (fun u => ({ s with cache := u.1.cache, recent := u.1.recent }, .container held u.2))
        (r.serve (session, c)) := by
  rw [run, Store.onFile_container]
  simp only [ask, hs]
  cases r.serve (session, c) <;> rfl

lemma ask_cases (hs : s.Consistent f) (r : Request) :
    s.state.isOpen = false ∨ (s.state = .openReadOnly ∧ r.isWriting = true) ∨
      ∃ id c, s.id? = some id ∧ f = .container true c ∧ s.phase = .opened (s.current id) ∧
        (r.isWriting = true → (s.current id).writable = true) ∧
        s.session r.isWriting = .ok (s.current id) := by
  cases ho : s.state.isOpen with
  | false => exact .inl rfl
  | true =>
    obtain ⟨id, c, hid, hf, hp, hsession⟩ := hs.opened ho
    by_cases hw : r.isWriting = true → s.state = .openReadWrite
    · exact .inr (.inr ⟨id, c, hid, hf, hp, fun hr => by simp [current, hw hr], hsession _ hw⟩)
    · obtain ⟨hr, hn⟩ := Classical.not_imp.1 hw
      exact .inr (.inl ⟨(StoreState.isOpen_eq_true.1 ho).resolve_right hn, hr⟩)

lemma consistent_ask (hs : s.Consistent f) (r : Request) :
    (Attempt.state (run (.ask r) (s, f))).1.Consistent (Attempt.state (run (.ask r) (s, f))).2 := by
  obtain ho | ⟨ho, hr⟩ | ⟨id, c, hid, rfl, -, -, hsession⟩ := ask_cases hs r
  · rwa [ask_closed ho]
  · rwa [ask_notWritable ho hr]
  · have ho : s.state.isOpen = true := by rw [← hs.id, hid]; rfl
    rw [ask_opened hsession, state_mapState]
    exact ⟨hs.holds, hs.id, by simp [ho], by simp [ho],
      fun h => absurd h (StoreState.ne_initial ho), fun _ => ⟨_, rfl⟩⟩

theorem consistent_run (hs : s.Consistent f) (op : Operation) :
    (Attempt.state (run op (s, f))).1.Consistent (Attempt.state (run op (s, f))).2 := by
  cases op with
  | openFile writable entropy =>
    rw [run, state_map]
    exact consistent_openFile hs writable entropy
  | close => exact consistent_close hs
  | ask r => exact consistent_ask hs r

lemma phase_initial (hs : s.state = .initial) : s.phase = .initial := by simp only [phase, hs]

lemma phase_closed (hs : s.state = .closed) : s.phase = .closed := by simp only [phase, hs]

lemma session?_toStore (ho : s.state.isOpen = false) : s.toStore.session? = none := by
  obtain h | h := StoreState.isOpen_eq_false.1 ho
  · simp [toStore, Store.session?, phase_initial h]
  · simp [toStore, Store.session?, phase_closed h]

lemma phase_ne_initial (hs : s.Consistent f) (hi : s.state ≠ .initial) : s.phase ≠ .initial := by
  intro hp
  cases ho : s.state.isOpen with
  | true =>
    obtain ⟨id, c, -, -, hp', -⟩ := hs.opened ho
    simp [hp] at hp'
  | false =>
    have h := (StoreState.isOpen_eq_false.1 ho).resolve_left hi
    simp [phase_closed h] at hp

lemma phase_of_initial (hs : s.Consistent f) (hi : s.state = .initial) (writable : Bool)
    (version : Int32) (id : StoreId) :
    phase { s with holds := true, state := .opened writable, version, id := some id } =
      .opened (.start writable id s.config.descriptorCacheCapacity) := by
  have hno := StoreState.isOpen_eq_false.2 (.inl hi)
  -- Opening does not touch the cache: it is the one that the store was created with.
  have hcache : s.cache = .empty s.config.descriptorCacheCapacity := by
    rw [← hs.capacity hi]
    exact hs.cache hno
  cases writable with
  | false => simp [phase, StoreState.opened, Session.start, hcache, hs.recent hno]
  | true => simp [phase, StoreState.opened, Session.start, hcache, hs.recent hno]

lemma openFile_toStore (hs : s.Consistent f) (writable : Bool) (entropy : Uuid) :
    Store.openFile writable entropy (s.toStore, f) =
      mapState (fun u => (u.1.toStore, u.2)) (openFile writable entropy (s, f)) := by
  by_cases hi : s.state = .initial
  · have hp := phase_initial hi
    obtain ⟨e, ha, he⟩ | ⟨c, ha, ⟨e, t, hu, he⟩ | ⟨version, id, t, hu, he⟩⟩ :=
      openFile_cases hi writable entropy f
    · rw [he]
      simp only [Store.openFile, hp, toStore, ha]
      rfl
    · rw [he, close_opened rfl (StoreState.isOpen_opened writable)]
      simp only [Store.openFile, hp, toStore, ha, transact_error (inTransaction_error hu)]
      rfl
    · rw [he]
      simp only [Store.openFile, hp, toStore, ha, transact_ok (inTransaction_ok hu), mapState,
        phase_of_initial hs hi]
  · rw [openFile_again hi, Store.openFile_again (phase_ne_initial hs hi)]
    rfl

lemma close_toStore (hs : s.Consistent f) :
    s.toStore.close f = ((s.close f).1.toStore, (s.close f).2) := by
  cases ho : s.state.isOpen with
  | true =>
    obtain ⟨id, c, -, -, hp, -⟩ := hs.opened ho
    rw [close_opened (hs.holds.trans ho) ho, Store.close]
    simp only [toStore, hp]
    rfl
  | false =>
    have hclose : s.close f = ({ s with state := .closed }, f) := by
      rw [close, if_neg (by simp [ho])]
    rw [hclose, Store.close]
    obtain h | h := StoreState.isOpen_eq_false.1 ho
    · simp only [toStore, phase_initial h]
      rfl
    · simp only [toStore, phase_closed h]
      rfl

lemma phase_of_scope {id : StoreId} (hid : s.id? = some id) {t : Session}
    (ht : ((s.current id).writable, (s.current id).id) = (t.writable, t.id)) :
    phase { s with cache := t.cache, recent := t.recent } = .opened t := by
  obtain ⟨writable, i, cache, recent⟩ := t
  obtain ⟨rfl, rfl⟩ := Prod.mk.inj ht
  rw [id?] at hid
  split at hid
  next ho =>
    obtain h | h := StoreState.isOpen_eq_true.1 ho
    · simp [phase, current, h, hid]
    · simp [phase, current, h, hid]
  · cases hid

lemma ask_toStore (hs : s.Consistent f) (r : Request) :
    (Operation.ask r).run (s.toStore, f) =
      mapState (fun u => (u.1.toStore, u.2)) (run (.ask r) (s, f)) := by
  obtain ho | ⟨ho, hr⟩ | ⟨id, c, hid, rfl, hp, hw, hsession⟩ := ask_cases hs r
  · rw [ask_closed ho, Operation.ask_closed (session?_toStore ho)]
    rfl
  · obtain ⟨id, c, -, -, hp, -⟩ := hs.opened (StoreState.isOpen_eq_true.2 (.inl ho))
    have hreader : (s.current id).writable = false := by simp [current, ho]
    rw [ask_notWritable ho hr, Operation.ask_notWritable hp hreader hr]
    rfl
  · rw [ask_opened hsession, Operation.ask_opened hp hw, mapState_mapState]
    apply mapState_congr
    simp only [toStore, phase_of_scope hid (Session.scope_serve r (s.current id, c))]

theorem run_toStore (hs : s.Consistent f) (op : Operation) :
    op.run (s.toStore, f) = mapState (fun u => (u.1.toStore, u.2)) (run op (s, f)) := by
  cases op with
  | openFile writable entropy => exact map_mapState (openFile_toStore hs writable entropy) _
  | close => exact congrArg (EStateM.Result.ok Answer.done) (close_toStore hs)
  | ask r => exact ask_toStore hs r

lemma id?_toStore (hs : s.Consistent f) : s.toStore.id? = s.id? := by
  cases ho : s.state.isOpen with
  | true =>
    obtain ⟨id, c, hid, -, hp, -⟩ := hs.opened ho
    simp [Store.id?, Store.session?, toStore, hp, hid, current]
  | false => simp [Store.id?, session?_toStore ho, id?, ho]

lemma phaseName_toStore (hs : s.Consistent f) : s.toStore.phaseName = s.state.name := by
  cases ho : s.state.isOpen with
  | true =>
    obtain ⟨id, c, -, -, hp, -⟩ := hs.opened ho
    obtain h | h := StoreState.isOpen_eq_true.1 ho
    · simp [Store.phaseName, toStore, hp, current, h, StoreState.name]
    · simp [Store.phaseName, toStore, hp, current, h, StoreState.name]
  | false =>
    obtain h | h := StoreState.isOpen_eq_false.1 ho
    · simp [Store.phaseName, toStore, phase_initial h, h, StoreState.name]
    · simp [Store.phaseName, toStore, phase_closed h, h, StoreState.name]

structure Mirrors (s : FlatStore) (t : Store) (f : File) : Prop where
  store : s.toStore = t
  name : t.phaseName = s.state.name
  id? : t.id? = s.id?
  descriptorBuilder : t.descriptorBuilder = s.descriptorBuilder
  chunkBuilder : ∀ d, t.chunkBuilder d = s.chunkBuilder d
  run : ∀ op, op.run (t, f) = mapState (fun u => (u.1.toStore, u.2)) (run op (s, f))

lemma Consistent.mirrors (hs : s.Consistent f) : s.Mirrors s.toStore f where
  store := rfl
  name := phaseName_toStore hs
  id? := id?_toStore hs
  descriptorBuilder := by
    cases hid : s.id? with
    | none => simp only [Store.descriptorBuilder, FlatStore.descriptorBuilder, id?_toStore hs, hid]
    | some id =>
      simp only [Store.descriptorBuilder, FlatStore.descriptorBuilder, id?_toStore hs, hid]
  chunkBuilder d := by
    cases hid : s.id? with
    | none => simp only [Store.chunkBuilder, FlatStore.chunkBuilder, id?_toStore hs, hid]
    | some id => simp only [Store.chunkBuilder, FlatStore.chunkBuilder, id?_toStore hs, hid]
  run := run_toStore hs

end FlatStore
end ChunkStore
