import ChunkStore.Proofs.Store.Atomicity
import ChunkStore.Proofs.Store.Simulation
import ChunkStore.Store.Site
import ChunkStore.Proofs.Handle

/-!
Whatever is done to a container keeps what it has, and caches know nothing that is wrong. What a
session remembers last is another matter, as it is taken from chunks that are put.
-/

namespace ChunkStore

open Attempt Transaction

namespace Container

def Evolves (c d : Container) : Prop := c.Inverse → d.Inverse ∧ c.Extends d

instance : Std.Refl Evolves := ⟨fun _ hi => ⟨hi, extends_of_ids rfl⟩⟩

instance : Trans Evolves Evolves Evolves :=
  ⟨fun h k hi => by
    obtain ⟨hi, hcd⟩ := h hi
    obtain ⟨hi, hde⟩ := k hi
    exact ⟨hi, hcd.trans hde⟩⟩

variable {c d : Container}

lemma inverse_empty : empty.Inverse := fun id bytes => by simp [empty, Table.rows]

lemma evolves_of_ids (h : c.ids = d.ids) : c.Evolves d := fun hi => ⟨hi.congr h, extends_of_ids h⟩

end Container

namespace Transaction

abbrev Evolves : Transaction → Transaction → Prop := InvImage Container.Evolves view

lemma evolves_insertDescriptor (bytes : Bytes) : Respects Evolves (insertDescriptor bytes) :=
  fun _ hi =>
    have hgrow := insertDescriptor_numbers bytes hi
    ⟨hgrow.inverse, hgrow.grows⟩

lemma evolves_call (call : Call) : Respects Evolves call.run :=
  respects_call Container.evolves_of_ids evolves_insertDescriptor call

end Transaction

lemma Container.evolves_amend (c : Container) (calls : List Call) : c.Evolves (c.amend calls) := by
  rw [amend_eq]
  exact respects_runAll evolves_call calls (.begin true c)

namespace Cache

def Knows (k : Cache) (scope : StoreId) (c : Container) : Prop := c.Inverse ∧ k.Sound scope c

variable {k : Cache} {scope : StoreId} {c d : Container}

lemma Knows.evolve (h : k.Knows scope c) (hcd : c.Evolves d) : k.Knows scope d := by
  obtain ⟨hi, hk⟩ := h
  exact ⟨(hcd hi).1, hk.extend (hcd hi).2⟩

def Learns (scope : StoreId) (x y : Cache × Transaction) : Prop :=
  x.2.view.Evolves y.2.view ∧ (x.1.Knows scope x.2.view → y.1.Knows scope y.2.view)

lemma learns_get (scope : StoreId) (id : UInt64) : Respects (Learns scope) (get scope id) := fun (k, t) => by
  have hids := Session.respects_get opening_ids scope id (k, t)
  refine ⟨Container.evolves_of_ids hids, fun ⟨hi, hs⟩ => ?_⟩
  obtain ⟨-, ht, hfits⟩ := agree_get ⟨rfl, hi, hs⟩ id
  rwa [ht]

lemma learns_intern (scope : StoreId) (d : Descriptor) (k : Cache) {t : Transaction}
    (hw : t.writing = true) : Learns scope (k, t) (state (intern scope d (k, t))) := by
  have hevolves := Session.respects_intern evolves_insertDescriptor scope d (k, t)
  refine ⟨hevolves, fun ⟨hi, hs⟩ => ?_⟩
  obtain ⟨-, ht, hfits⟩ := agree_intern ⟨rfl, hi, hs⟩ hw d
  rwa [ht]

end Cache

namespace Session

variable {α : Type}

def Knows (s : Session) (c : Container) : Prop := s.cache.Knows s.id c

def Learns (x y : Session × Container) : Prop :=
  x.2.Evolves y.2 ∧ (x.1.Knows x.2 → y.1.Knows y.2)

instance : Std.Refl Learns := ⟨fun _ => ⟨Std.Refl.refl _, fun h => h⟩⟩

instance : Trans Learns Learns Learns :=
  ⟨fun h k => ⟨Trans.trans h.1 k.1, fun hx => k.2 (h.2 hx)⟩⟩

abbrev LearnsIn : Session × Transaction → Session × Transaction → Prop :=
  InvImage Learns fun x => (x.1, x.2.view)

lemma learns_inTransaction {x : Attempt Transaction α} (hx : Respects SameIds x) :
    Respects LearnsIn (inTransaction x) := fun (s, t) => by
  have hevolves := Container.evolves_of_ids (hx t)
  change Learns (s, t.view) (_, _)
  rw [inTransaction, within_run, state_mapState]
  exact ⟨hevolves, fun h => Cache.Knows.evolve h hevolves⟩

lemma learns_inCache {x : Attempt (Cache × Transaction) α} {s : Session} {t : Transaction}
    (h : Cache.Learns s.id (s.cache, t) (state (x (s.cache, t)))) :
    LearnsIn (s, t) (state (inCache x (s, t))) := by
  rw [inCache, within_run, state_mapState]
  exact h

lemma learns_resolve (id : UInt64) : Respects LearnsIn (resolve id) := fun (s, t) => by
  have hget := learns_inCache (Cache.learns_get s.id id (s.cache, t))
  simp only [resolve]
  split
  · exact Std.Refl.refl (r := LearnsIn) _
  · split
    next h =>
      rw [h] at hget
      exact hget
    next h =>
      rw [h] at hget
      exact hget

lemma learns_transact_false {x : Attempt (Session × Transaction) α} (hx : Respects LearnsIn x)
    (hs : Respects StillBeside x) : Respects Learns (transact false x) := fun (s, c) => by
  cases h : x (s, .begin false c) with
  | ok a y =>
    obtain ⟨s', t⟩ := y
    obtain rfl : t = .begin false c := hs.of_ok h rfl
    rw [transact_ok h]
    exact hx.of_ok h
  | error e y =>
    obtain ⟨s', t⟩ := y
    obtain rfl : t = .begin false c := hs.of_error h rfl
    rw [transact_error h]
    exact hx.of_error h

lemma learns_transact_inTransaction (writing : Bool) {x : Attempt Transaction α}
    (hx : Respects SameIds x) : Respects Learns (transact writing (inTransaction x)) := fun (s, c) => by
  cases h : x (.begin writing c) with
  | ok a t =>
    have hids : c.ids = (t.commit c).ids := by
      rw [commit]
      split
      · exact hx.of_ok h
      · rfl
    have hevolves := Container.evolves_of_ids hids
    rw [transact_ok (inTransaction_ok h)]
    exact ⟨hevolves, fun hk => Cache.Knows.evolve hk hevolves⟩
  | error e t =>
    rw [transact_error (inTransaction_error h)]
    exact Std.Refl.refl (r := Learns) _

lemma learns_find? (timestamp : Int64) : Respects Learns (find? timestamp) := by
  apply learns_transact_false
  · refine (learns_inTransaction (opening_ids.selectChunk timestamp)).bind fun row => ?_
    cases row with
    | none => exact respects_pure _
    | some row => exact (respects_loadChunk learns_resolve _ _).bind fun _ => respects_pure _
  · refine (respects_inTransaction (opening_still.selectChunk timestamp)).bind fun row => ?_
    cases row with
    | none => exact respects_pure _
    | some row =>
      exact (respects_loadChunk (respects_resolve opening_still) _ _).bind fun _ => respects_pure _

lemma learns_findBetween (first last : Int64) : Respects Learns (findBetween first last) := by
  apply learns_transact_false
  · exact (learns_inTransaction (opening_ids.selectChunks _ _)).bind fun _ =>
      respects_loadChunks learns_resolve _
  · exact (respects_inTransaction (opening_still.selectChunks _ _)).bind fun _ =>
      respects_loadChunks (respects_resolve opening_still) _

lemma of_storeChunk_ok {chunk : Chunk} {s s' : Session} {t u : Transaction} {d : Descriptor}
    (h : storeChunk chunk (s, t) = .ok d (s', u)) : ∃ k v,
      Cache.intern s.id chunk.descriptor (s.cache, t) = .ok d (k, v) ∧ s' = { s with cache := k } ∧
        insertChunk chunk.timestamp ⟨d.persistedId, chunk.payload⟩ v = .ok () u := by
  obtain ⟨e, ⟨s₁, v⟩, hintern, hrest⟩ := of_bind_ok h
  obtain ⟨_, ⟨s₂, w⟩, hinsert, hrest⟩ := of_bind_ok hrest
  obtain ⟨rfl, heq⟩ := of_pure_ok hrest
  cases hi : Cache.intern s.id chunk.descriptor (s.cache, t) with
  | error e' y => simp [inCache, within, hi] at hintern
  | ok d' y =>
    obtain ⟨k, v'⟩ := y
    obtain ⟨rfl, rfl, rfl⟩ : d' = e ∧ { s with cache := k } = s₁ ∧ v' = v := by
      simpa [inCache, within, hi] using hintern
    cases hc : insertChunk chunk.timestamp ⟨d'.persistedId, chunk.payload⟩ v' with
    | error e' y => simp [inTransaction_error hc] at hinsert
    | ok _ y =>
      obtain ⟨rfl, rfl⟩ : { s with cache := k } = s₂ ∧ y = w := by
        simpa [inTransaction_ok hc] using hinsert
      obtain ⟨rfl, rfl⟩ := Prod.mk.inj heq
      exact ⟨k, v', rfl, rfl, hc⟩

lemma of_put_ok {chunk : Chunk} {s s' : Session} {c c' : Container}
    (h : put chunk (s, c) = .ok () (s', c')) : ∃ d k v u,
      Cache.intern s.id chunk.descriptor (s.cache, .begin true c) = .ok d (k, v) ∧
        s' = { s with cache := k, recent := some d } ∧
        insertChunk chunk.timestamp ⟨d.persistedId, chunk.payload⟩ v = .ok () u ∧ c' = u.view := by
  cases hs : storeChunk chunk (s, .begin true c) with
  | error e y => simp [put, transact_error hs] at h
  | ok d y =>
    obtain ⟨s₁, u⟩ := y
    obtain ⟨k, v, hintern, rfl, hinsert⟩ := of_storeChunk_ok hs
    have hmode : SameMode (.begin true c) u :=
      Trans.trans (r := SameMode) (s := SameMode)
        ((respects_intern mode_insertDescriptor s.id chunk.descriptor).of_ok hintern)
        ((mode_insertChunk _ _).of_ok hinsert)
    have hcommit : u.commit c = u.view := if_pos (Eq.symm hmode)
    simp only [put, transact_ok hs, hcommit] at h
    obtain ⟨-, hst⟩ := EStateM.Result.ok.inj h
    obtain ⟨rfl, rfl⟩ := Prod.mk.inj hst
    exact ⟨d, k, v, u, hintern, rfl, hinsert, rfl⟩

lemma of_put_error {chunk : Chunk} {s s' : Session} {c c' : Container} {e : Error}
    (h : put chunk (s, c) = .error e (s', c')) : c' = c ∧ ∃ u, s' = forget u := by
  cases hs : storeChunk chunk (s, .begin true c) with
  | ok d y => simp [put, transact_ok hs] at h
  | error e' y =>
    simp only [put, transact_error hs] at h
    obtain ⟨-, hst⟩ := EStateM.Result.error.inj h
    obtain ⟨rfl, rfl⟩ := Prod.mk.inj hst
    exact ⟨rfl, _, rfl⟩

lemma knows_forget (s : Session) {c : Container} (hc : c.Inverse) : s.forget.Knows c :=
  ⟨hc, Cache.sound_empty _ _ _⟩

lemma knows_start (writable : Bool) (id : StoreId) (capacity : Nat) {c : Container}
    (hc : c.Inverse) : (start writable id capacity).Knows c :=
  ⟨hc, Cache.sound_empty _ _ _⟩

lemma learns_put (chunk : Chunk) : Respects Learns (put chunk) := fun (s, c) => by
  cases h : put chunk (s, c) with
  | ok _ y =>
    obtain ⟨s', c'⟩ := y
    obtain ⟨d, k, v, u, hintern, rfl, hinsert, rfl⟩ := of_put_ok h
    have hlearn := Cache.learns_intern s.id chunk.descriptor s.cache (t := .begin true c) rfl
    rw [hintern, state_ok] at hlearn
    have hids := Container.evolves_of_ids ((ids_insertChunk _ _).of_ok hinsert)
    exact ⟨Trans.trans hlearn.1 hids, fun hk => (hlearn.2 hk).evolve hids⟩
  | error e y =>
    obtain ⟨s', c'⟩ := y
    obtain ⟨rfl, u, rfl⟩ := of_put_error h
    exact ⟨Std.Refl.refl _, fun hk => knows_forget u hk.1⟩

lemma learns_metadata? (key : String) : Respects Learns (metadata? key) :=
  learns_transact_inTransaction false (opening_ids.selectMeta key)

lemma learns_epoch : Respects Learns epoch := respects_epoch learns_metadata?

lemma learns_setEpoch (n : Int64) : Respects Learns (setEpoch n) :=
  (learns_transact_inTransaction true
    (respects_ids (opening_data.insertEpoch data_insertMeta n))).checked _ _

lemma learns_putMetadata (key value : String) : Respects Learns (putMetadata key value) :=
  (learns_transact_inTransaction true (respects_ids (data_insertMeta key value))).checked _ _

theorem learns_serve (r : Request) : Respects Learns r.serve := by
  cases r with
  | put chunk => exact (learns_put chunk).map _
  | find t => exact (learns_find? t).map _
  | findBetween t u => exact (learns_findBetween t u).map _
  | maxTimestamp =>
    exact (learns_transact_inTransaction false opening_ids.selectMaxTimestamp).map _
  | epoch => exact learns_epoch.map _
  | setEpoch n => exact (learns_setEpoch n).map _
  | metadata k => exact (learns_metadata? k).map _
  | putMetadata k v => exact (learns_putMetadata k v).map _

end Session

structure File.Evolves (f g : File) : Prop where
  container : f.container?.isSome → g.container?.isSome
  inside : f.inside.Evolves g.inside

namespace File

variable {f g : File}

lemma eq_container (h : f.container?.isSome) : ∃ held, f = container held f.inside := by
  cases f with
  | container held c => exact ⟨held, rfl⟩
  | missing => cases h
  | raw bytes => cases h
  | unreachable fault => cases h

lemma evolves_refl (f : File) : f.Evolves f := ⟨fun h => h, Std.Refl.refl _⟩

lemma evolves_container {held : Bool} {c : Container} (h : f.inside.Evolves c) :
    f.Evolves (container held c) :=
  ⟨fun _ => rfl, h⟩

lemma inside_release (f : File) : f.release.inside = f.inside := by cases f <;> rfl

lemma evolves_release (f : File) : f.Evolves f.release := by
  cases f with
  | container held c => exact evolves_container (Std.Refl.refl _)
  | missing => exact evolves_refl _
  | raw bytes => exact evolves_refl _
  | unreachable fault => exact evolves_refl _

end File

namespace Store

def Knows (s : Store) (f : File) : Prop :=
  ∀ session, s.session? = some session → f.container?.isSome ∧ session.Knows f.inside

variable {s : Store} {f g : File}

lemma Knows.evolve (h : s.Knows f) (hfg : f.Evolves g) : s.Knows g := fun session hs =>
  ⟨hfg.container (h session hs).1, Cache.Knows.evolve (h session hs).2 hfg.inside⟩

lemma knows_of_closed (hs : s.session? = none) (f : File) : s.Knows f := fun session h => by
  simp [hs] at h

def Learns (x y : Store × File) : Prop :=
  x.2.Evolves y.2 ∧ (x.2.inside.Inverse → y.1.Knows y.2)

lemma learns_openFile (hs : s.Knows f) (writable : Bool) (entropy : Uuid) :
    Learns (s, f) (state (openFile writable entropy (s, f))) := by
  by_cases hp : s.phase = .initial
  · obtain ⟨e, he⟩ | ⟨c, hc, ⟨e, t, -, he⟩ | ⟨version, id, t, hu, he⟩⟩ :=
      openFile_cases hp writable entropy f
    · rw [he]
      exact ⟨File.evolves_refl f, fun _ => knows_of_closed rfl f⟩
    · have hin := File.inside_of_contents? hc
      rw [he]
      exact ⟨File.evolves_container (hin ▸ Std.Refl.refl _), fun _ => knows_of_closed rfl _⟩
    · have hin := File.inside_of_contents? hc
      have hids := congrArg Prod.fst (ids_commit_setUp hu)
      have hevolves := Container.evolves_of_ids hids.symm
      rw [he]
      refine ⟨File.evolves_container (hin ▸ hevolves), fun ho session hsession => ⟨rfl, ?_⟩⟩
      obtain rfl := Option.some.inj hsession
      exact Session.knows_start _ _ _ (hevolves (hin ▸ ho)).1
  · rw [openFile_again hp]
    exact ⟨File.evolves_refl f, fun _ => hs⟩

lemma learns_close (s : Store) (f : File) : Learns (s, f) (s.close f) := by
  rw [close]
  split
  · exact ⟨File.evolves_release f, fun _ => knows_of_closed rfl _⟩
  · exact ⟨File.evolves_refl f, fun _ => knows_of_closed rfl f⟩
  · exact ⟨File.evolves_refl f, fun _ => knows_of_closed rfl f⟩

lemma learns_ask (hs : s.Knows f) (r : Request) :
    Learns (s, f) (state ((Operation.ask r).run (s, f))) := by
  cases hsession : s.session? with
  | none =>
    rw [Operation.ask_closed hsession]
    exact ⟨File.evolves_refl f, fun _ => hs⟩
  | some session =>
    obtain ⟨hf, hknows⟩ := hs session hsession
    have hp := phase_of_session? hsession
    by_cases hw : r.isWriting = true → session.writable = true
    · obtain ⟨held, hc⟩ := File.eq_container hf
      obtain ⟨hevolves, hlearns⟩ := Session.learns_serve r (session, f.inside)
      rw [hc, Operation.ask_opened hp hw, state_mapState]
      refine ⟨File.evolves_container hevolves, fun _ session' hs' => ⟨rfl, ?_⟩⟩
      obtain rfl := Option.some.inj hs'
      exact hlearns hknows
    · obtain ⟨hr, hn⟩ : r.isWriting = true ∧ session.writable = false := by simpa using hw
      rw [Operation.ask_notWritable hp hn hr]
      exact ⟨File.evolves_refl f, fun _ => hs⟩

theorem learns_run (hs : s.Knows f) (op : Operation) : Learns (s, f) (state (op.run (s, f))) := by
  cases op with
  | openFile writable entropy =>
    rw [Operation.run, state_map]
    exact learns_openFile hs writable entropy
  | close => exact learns_close s f
  | ask r => exact learns_ask hs r

end Store

namespace Site

structure Orderly (w : Site) : Prop where
  files : ∀ i, (w.files i).inside.Inverse
  stores : ∀ i s, (i, s) ∈ w.stores → s.Knows (w.files i)

variable {w : Site} {i : Nat}

lemma files_after (w : Site) (k i : Nat) (s : Store) (op : Operation) :
    (w.after k i s op).files i = (state (op.run (s, w.files i))).2 :=
  if_pos rfl

lemma Orderly.save (hw : w.Orderly) {f : File} (hf : f.inside.Inverse)
    (hs : ∀ s, (i, s) ∈ w.stores → s.Knows f) : (w.save i f).Orderly where
  files j := by
    simp only [Site.save]
    split
    · exact hf
    · exact hw.files j
  stores j s hm := by
    simp only [Site.save]
    split
    next h => exact hs s (h ▸ hm)
    · exact hw.stores j s hm

lemma Orderly.saveFree (hw : w.Orderly) (hi : w.Free i) {f : File} (hf : f.inside.Inverse) :
    (w.save i f).Orderly :=
  hw.save hf fun s hm => Store.knows_of_closed (hi s hm) f

lemma Orderly.after (hw : w.Orderly) {k : Nat} {s : Store} (hs : w.stores[k]? = some (i, s))
    (op : Operation) : (w.after k i s op).Orderly := by
  have hmem := List.mem_of_getElem? hs
  obtain ⟨hevolves, hknows⟩ := Store.learns_run (hw.stores i s hmem) op
  have hsaved : (w.save i (state (op.run (s, w.files i))).2).Orderly :=
    hw.save (hevolves.inside (hw.files i)).1 fun u hu => (hw.stores i u hu).evolve hevolves
  refine ⟨hsaved.files, fun j u hu => ?_⟩
  rcases List.mem_or_eq_of_mem_set hu with hu | heq
  · exact hsaved.stores j u hu
  · obtain ⟨rfl, rfl⟩ := Prod.mk.inj heq
    rw [files_after]
    exact hknows (hw.files j)

theorem Reached.orderly (hw : w.Reached) : w.Orderly := by
  induction hw with
  | @start files hf =>
    refine ⟨fun i => ?_, fun i s hm => by cases hm⟩
    rw [File.inside, hf i]
    exact Container.inverse_empty
  | create i path config _ ih =>
    refine ⟨ih.files, fun j s hm => ?_⟩
    rcases List.mem_append.1 hm with hm | hm
    · exact ih.stores j s hm
    · obtain ⟨-, rfl⟩ : j = i ∧ s = Store.create path config := by simpa using hm
      exact Store.knows_of_closed rfl _
  | call k op _ hs ih => exact ih.after hs op
  | copy i j _ hj ih =>
    apply ih.saveFree hj
    rw [File.inside_release]
    exact ih.files i
  | hold i _ hi hc ih =>
    apply ih.saveFree hi
    rw [File.inside_container, ← File.inside_of_contents? hc]
    exact ih.files i
  | @work w c i calls _ hi hf ih =>
    apply ih.saveFree hi
    have hc := ih.files i
    rw [hf, File.inside_container] at hc
    exact (c.evolves_amend calls hc).1

end Site
end ChunkStore
