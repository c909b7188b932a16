import ChunkStore.Proofs.Store.Evolution
import ChunkStore.Proofs.Store.History
import ChunkStore.Proofs.Store.Plain
import ChunkStore.Proofs.Store.Reopen

/-!
What the row of a chunk that was put refers to. A number that the chunk brings along is taken on
trust if it is said to be the store's, which the numbers of a copy of its container are, too.
-/

namespace ChunkStore

open Attempt Transaction

lemma Container.holds_congr {c d : Container} (h : c.ids = d.ids) {id : UInt64} {l : TrackList} :
    c.Holds id l ↔ d.Holds id l :=
  ⟨fun hc => hc.extend (extends_of_ids h), fun hd => hd.extend (extends_of_ids h.symm)⟩

lemma Transaction.find?_insertChunk {t u : Transaction} {timestamp : Int64} {row : ChunkRow}
    (h : insertChunk timestamp row t = .ok () u) :
    u.view.chunks.rows.find? timestamp = some row := by
  rw [(insertChunk_ok h).2, Table.rows, Rows.find?_insert, if_pos rfl]

namespace Plain

variable {scope : StoreId} {c c' : Container}

lemma of_transact_ok {α : Type} {writing : Bool} {x : Attempt Transaction α} {a : α}
    (h : transact writing x c = .ok a c') : ∃ t, x (.begin writing c) = .ok a t := by
  cases hx : x (.begin writing c) with
  | ok b t =>
    obtain rfl : b = a := by simpa [transact_ok hx] using congrArg outcome h
    exact ⟨t, rfl⟩
  | error e t => simp [transact_error hx] at h

lemma holds_of_loadChunk {timestamp : Int64} {row : ChunkRow} {t u : Transaction} {found : Chunk}
    (h : loadChunk scope timestamp row t = .ok found u) :
    u.view.Holds row.descriptorId found.descriptor.toTrackList := by
  obtain ⟨d, v, hd, hrest⟩ := of_bind_ok h
  obtain ⟨rfl, rfl⟩ := of_pure_ok hrest
  obtain ⟨hid, -, hl⟩ := keeps_of_resolve hd
  rwa [hid] at hl

lemma holds_of_find? {timestamp : Int64} {row : ChunkRow} {found : Chunk}
    (hrow : c.chunks.rows.find? timestamp = some row)
    (h : find? scope timestamp c = .ok (some found) c') :
    c.Holds row.descriptorId found.descriptor.toTrackList := by
  obtain ⟨t, hx⟩ := of_transact_ok h
  obtain ⟨r, u, hsel, hrest⟩ := of_bind_ok hx
  obtain rfl : u = .begin false c := (opening_still.selectChunk timestamp).of_ok hsel rfl
  obtain ⟨rows, v, hopen, hr⟩ := of_bind_ok hsel
  obtain ⟨rfl, -⟩ := openTable_inv hopen
  obtain rfl : some row = r := hrow.symm.trans (of_pure_ok hr).1
  obtain ⟨chunk, w, hload, hrest⟩ := of_bind_ok hrest
  obtain rfl : chunk = found := Option.some.inj (of_pure_ok hrest).1
  have hl := holds_of_loadChunk hload
  obtain rfl : w = .begin false c := (still_loadChunk _ _ _).of_ok hload rfl
  exact hl

lemma finds_iff {timestamp : Int64} {row : ChunkRow} {l : TrackList}
    (hrow : c.chunks.rows.find? timestamp = some row) :
    (∃ found, outcome (find? scope timestamp c) = .ok (some found) ∧
        found.descriptor.toTrackList = l ∧ found.payload = row.payload) ↔
      c.Holds row.descriptorId l := by
  constructor
  · rintro ⟨found, hfound, rfl, -⟩
    cases h : find? scope timestamp c with
    | error e c' => simp [h] at hfound
    | ok a c' =>
      obtain rfl : a = some found := by simpa [h] using hfound
      exact holds_of_find? hrow h
  · intro hl
    obtain ⟨bytes, hb, -⟩ := id hl
    have hread : c.Readable := ⟨by rw [Table.eq_stored hb]; rfl, by rw [Table.eq_stored hrow]; rfl⟩
    rw [find?_eq_some hread hrow hl]
    exact ⟨_, rfl, rfl, rfl⟩

lemma holds_of_intern {d e : Descriptor} {t u : Transaction} (hi : t.view.Inverse)
    (h : intern scope d t = .ok e u) :
    (u.view.Holds e.persistedId d.toTrackList ↔ Faithful scope d t.view) ∧
      (¬ Faithful scope d t.view → e.persistedId = d.persistedId) := by
  by_cases hf : Faithful scope d t.view
  · have hkeeps := keeps_of_intern hi hf h
    rw [Container.Keeps, tracks_of_intern h] at hkeeps
    exact ⟨iff_of_true hkeeps.2 hf, fun hno => absurd hf hno⟩
  · obtain ⟨hs, hp, hno⟩ : d.scope = some scope ∧ d.isPersisted = true ∧
        ¬ t.view.Holds d.persistedId d.toTrackList := by simpa [Faithful] using hf
    -- nothing is looked up
    have hsame : d.forStore scope = d := if_pos hs
    obtain ⟨rfl, rfl⟩ : d = e ∧ t = u := by simpa [intern, hsame, hp, pure_run] using h
    exact ⟨iff_of_false hno hf, fun _ => rfl⟩

end Plain

namespace Session

variable {s : Session} {c : Container}

lemma plain_intern (hk : s.Knows c) {d e : Descriptor} {k : Cache}
    {u : Transaction} (h : Cache.intern s.id d (s.cache, .begin true c) = .ok e (k, u)) :
    Plain.intern s.id d (.begin true c) = .ok e u := by
  obtain ⟨hi, hs⟩ := hk
  have hagree : Agree (Cache.Fits s.id) (Cache.intern s.id d (s.cache, .begin true c))
      (Plain.intern s.id d (.begin true c)) :=
    Cache.agree_intern ⟨rfl, hi, hs⟩ rfl d
  obtain ⟨a, ⟨k', v⟩, t, hx, hy, rfl, -⟩ | ⟨e', _, t, hx, -⟩ := hagree.cases
  · rw [h] at hx
    cases hx
    exact hy
  · simp [h] at hx

lemma find?_recent {timestamp : Int64} {row : ChunkRow} {d : Descriptor}
    (hrow : c.chunks.rows.find? timestamp = some row) (hd : s.recent = some d)
    (hid : d.persistedId = row.descriptorId) :
    find? timestamp (s, c) = .ok (some (.ofParts d timestamp row.payload)) (s, c) := by
  have hchunks : (Container.Slot.chunks.get c).read = .ok c.chunks.rows := by
    change c.chunks.read = _
    rw [Table.eq_stored hrow]
    rfl
  have hsel : selectChunk timestamp (.begin false c) = .ok (some row) (.begin false c) := by
    rw [selectChunk, bind_ok (Plain.openTable_begin hchunks _), hrow, pure_run]
  have hresolve : resolve row.descriptorId (s, .begin false c) = .ok d (s, .begin false c) := by
    simp only [resolve, hd, Option.filter, hid, decide_true, if_true]
  have hload : loadChunk timestamp row (s, .begin false c) =
      .ok (.ofParts d timestamp row.payload) (s, .begin false c) := by
    rw [loadChunk, bind_ok hresolve, pure_run]
  refine transact_ok (t := .begin false c) ?_
  rw [bind_ok (inTransaction_ok hsel)]
  exact bind_ok hload _

end Session

namespace Store

def Finds (s : Store) (f : File) (chunk : Chunk) : Prop :=
  ∃ found, outcome ((Operation.ask (.find chunk.timestamp)).run (s, f)) = .ok (.chunk (some found)) ∧
    found.descriptor.toTrackList = chunk.descriptor.toTrackList ∧ found.payload = chunk.payload

lemma finds_iff_holds {s : Store} {session : Session} {f : File} {c : Container} {chunk : Chunk}
    {id : UInt64} (hs : s.SoundOn f c) (hp : s.phase = .opened session)
    (hrow : c.chunks.rows.find? chunk.timestamp = some ⟨id, chunk.payload⟩) :
    s.Finds f chunk ↔ c.Holds id chunk.descriptor.toTrackList := by
  rw [Finds, World.outcome_ask hs hp rfl, Plain.serve, outcome_map, ← Plain.finds_iff hrow]
  refine exists_congr fun found => and_congr_left fun _ => ?_
  cases outcome (Plain.find? session.id chunk.timestamp c) with
  | ok a => simp [Except.map]
  | error e => simp [Except.map]

lemma finds_of_openFile {s s' : Store} {f : File} {writable : Bool} {entropy : Uuid}
    {c : Container} {chunk : Chunk} {id : UInt64} (hi : c.Inverse)
    (hrow : c.chunks.rows.find? chunk.timestamp = some ⟨id, chunk.payload⟩)
    (h : openFile writable entropy (s, .container false c) = .ok () (s', f)) :
    s'.Finds f chunk ↔ c.Holds id chunk.descriptor.toTrackList := by
  obtain ⟨-, -, c', version, scope, t, hc, hu, rfl, rfl⟩ := of_openFile_ok h
  obtain rfl : c' = c := File.eq_of_contents? hc
  have hdata := ids_commit_setUp hu
  have hids : (t.commit c').ids = c'.ids := congrArg Prod.fst hdata
  have hrows : (t.commit c').chunks.rows = c'.chunks.rows :=
    Table.rows_congr (congrArg Prod.snd hdata)
  rw [← Container.holds_congr hids]
  refine finds_iff_holds (fun session hp => ⟨⟨true, rfl⟩, ?_⟩) rfl (hrows ▸ hrow)
  obtain rfl := Phase.opened.inj hp
  exact Session.sound_start (hi.congr hids.symm) _ _ _

end Store

/-- What becomes of a chunk when the store `scope` puts it into the container `c`, which is `d` then.
If the chunk is wrong about the number it has in the store, that number is taken all the same. -/
structure Container.Takes (scope : StoreId) (chunk : Chunk) (c d : Container) : Prop where
  row : ∃ row, d.chunks.rows.find? chunk.timestamp = some row ∧ row.payload = chunk.payload ∧
    (d.Holds row.descriptorId chunk.descriptor.toTrackList ↔
      Plain.Faithful scope chunk.descriptor c) ∧
    (¬ Plain.Faithful scope chunk.descriptor c → row.descriptorId = chunk.descriptor.persistedId)
  read : ∀ {s s' f writable entropy},
    Store.openFile writable entropy (s, .container false d) = .ok () (s', f) →
      (s'.Finds f chunk ↔ Plain.Faithful scope chunk.descriptor c)

namespace Session

variable {s s' : Session} {c c' : Container} {chunk : Chunk}

lemma takes_of_put (hk : s.Knows c) (h : put chunk (s, c) = .ok () (s', c')) :
    c.Takes s.id chunk c' := by
  obtain ⟨d, k, v, u, hintern, rfl, hinsert, rfl⟩ := of_put_ok h
  have hi := hk.1
  have hplain := plain_intern hk hintern
  have hgrow : Numbers c (state (Plain.intern s.id chunk.descriptor (.begin true c))).view :=
    Plain.grows_intern (t := .begin true c) _ _ hi
  rw [hplain] at hgrow
  have hids := (insertChunk_ok hinsert).1
  have hrow := find?_insertChunk hinsert
  obtain ⟨hholds, hid⟩ := Plain.holds_of_intern (t := .begin true c) hi hplain
  rw [← Container.holds_congr hids] at hholds
  exact ⟨⟨_, hrow, rfl, hholds, hid⟩, fun ho =>
    (Store.finds_of_openFile (hgrow.inverse.congr hids.symm) hrow ho).trans hholds⟩

lemma find?_of_put (hk : s.Knows c) (h : put chunk (s, c) = .ok () (s', c')) :
    ∃ found, find? chunk.timestamp (s', c') = .ok (some found) (s', c') ∧
      found.descriptor.toTrackList = chunk.descriptor.toTrackList ∧
      found.payload = chunk.payload := by
  obtain ⟨d, k, v, u, hintern, rfl, hinsert, rfl⟩ := of_put_ok h
  exact ⟨_, find?_recent (find?_insertChunk hinsert) rfl rfl,
    Plain.tracks_of_intern (plain_intern hk hintern), rfl⟩

end Session

namespace Store

variable {s : Store} {f : File} {chunk : Chunk}

lemma of_ask_put (hs : s.Knows f)
    (h : outcome ((Operation.ask (.put chunk)).run (s, f)) = .ok .done) :
    ∃ session session' held c', s.phase = .opened session ∧ session.Knows f.inside ∧
      Session.put chunk (session, f.inside) = .ok () (session', c') ∧
      state ((Operation.ask (.put chunk)).run (s, f)) =
        ({ s with phase := .opened session' }, .container held c') := by
  cases hsession : s.session? with
  | none => simp [Operation.ask_closed hsession] at h
  | some session =>
    obtain ⟨hf, hk⟩ := hs session hsession
    obtain ⟨held, hc⟩ := File.eq_container hf
    have hp := phase_of_session? hsession
    cases hw : session.writable with
    | false =>
      rw [Operation.ask_notWritable (r := .put chunk) hp hw rfl] at h
      cases h
    | true =>
      rw [hc, Operation.ask_opened (r := .put chunk) hp fun _ => hw] at h ⊢
      cases hput : Session.put chunk (session, f.inside) with
      | error e y => simp [Request.serve, map_error hput] at h
      | ok _ y =>
        rw [Request.serve, map_ok hput]
        exact ⟨session, y.1, held, y.2, hp, hk, hput, rfl⟩

end Store

namespace Site

variable {w : Site} {k i : Nat} {s : Store} {chunk : Chunk}

lemma store_after (hs : w.stores[k]? = some (i, s)) (op : Operation) :
    (w.after k i s op).stores[k]? = some (i, (state (op.run (s, w.files i))).1) := by
  obtain ⟨hk, -⟩ := List.getElem?_eq_some_iff.1 hs
  exact List.getElem?_set_self hk

/-- The store that put the chunk finds it in any case, as it still remembers the descriptor. -/
theorem takes_put (hw : w.Reached) (hs : w.stores[k]? = some (i, s))
    (hput : outcome ((Operation.ask (.put chunk)).run (s, w.files i)) = .ok .done) :
    ∃ scope t, s.id? = some scope ∧
      (w.files i).inside.Takes scope chunk ((w.after k i s (.ask (.put chunk))).files i).inside ∧
      (w.after k i s (.ask (.put chunk))).stores[k]? = some (i, t) ∧
      t.Finds ((w.after k i s (.ask (.put chunk))).files i) chunk := by
  obtain ⟨session, session', held, c', hp, hk, h, hstate⟩ :=
    Store.of_ask_put (hw.orderly.stores i s (List.mem_of_getElem? hs)) hput
  rw [files_after, store_after hs, hstate]
  refine ⟨session.id, _, ?_, Session.takes_of_put hk h, rfl, ?_⟩
  · simp only [Store.id?, Store.session?, hp, Option.map_some]
  · obtain ⟨found, hfound, htracks, hpayload⟩ := Session.find?_of_put hk h
    refine ⟨found, ?_, htracks, hpayload⟩
    rw [Operation.ask_opened rfl (by rintro ⟨⟩), outcome_mapState, Request.serve, map_ok hfound,
      outcome_ok]

def ask (w : Site) (k : Nat) (op : Operation) : Site :=
  match w.stores[k]? with
  | some (i, s) => w.after k i s op
  | none => w

lemma Reached.ask (hw : w.Reached) (k : Nat) (op : Operation) : (w.ask k op).Reached := by
  rw [Site.ask]
  split
  next h => exact hw.call k op h
  · exact hw

def sampleOpen : Operation := .openFile true .zero

def sampleCopied : Site :=
  let w := ((create ⟨fun _ => .missing, []⟩ 0 "chunks" {}).ask 0 sampleOpen).ask 0 .close
  w.save 1 (w.files 0).release

def sampleTracks : TrackList := ⟨[⟨1, .binary⟩], List.pairwise_singleton _ _, by decide⟩

def otherTracks : TrackList := ⟨[⟨2, .text⟩], List.pairwise_singleton _ _, by decide⟩

def samplePut : Site :=
  ((sampleCopied.create 0 "chunks" {}).ask 1 sampleOpen).ask 1
    (.ask (.put (.ofParts ⟨sampleTracks, none, 0⟩ 5 [7])))

def sampleDiverged : Site :=
  (((samplePut.ask 1 .close).create 1 "chunks" {}).ask 2 sampleOpen).ask 2
    (.ask (.put (.ofParts ⟨otherTracks, none, 0⟩ 6 [8])))

def sampleChunk : Chunk := .ofParts ⟨sampleTracks, some (.fresh .zero), 1⟩ 5 [7]

lemma reached_sampleCopied : sampleCopied.Reached := by
  have hstart : (Site.mk (fun _ => .missing) []).Reached := .start fun _ => rfl
  have hmade := ((hstart.create 0 "chunks" {}).ask 0 sampleOpen).ask 0 .close
  have hplaces : ∀ p ∈ (((create ⟨fun _ => .missing, []⟩ 0 "chunks" {}).ask 0 sampleOpen).ask 0
      .close).stores, p.1 = 0 := by decide +kernel
  exact .copy 0 1 hmade fun s hm => absurd (hplaces _ hm) Nat.one_ne_zero

lemma reached_samplePut : samplePut.Reached :=
  ((reached_sampleCopied.create 0 "chunks" {}).ask 1 _).ask 1 _

lemma reached_sampleDiverged : sampleDiverged.Reached :=
  (((reached_samplePut.ask 1 _).create 1 "chunks" {}).ask 2 _).ask 2 _

/-- The number 1 is not said to be this store's, so that it does not matter who else has it there. -/
def sampleForeign : Chunk := .ofParts ⟨sampleTracks, none, 1⟩ 5 [7]

theorem takes_put_sample : ∃ s row,
    sampleDiverged.stores[2]? = some (1, s) ∧
      outcome ((Operation.ask (.put sampleForeign)).run (s, sampleDiverged.files 1)) = .ok .done ∧
      ((sampleDiverged.after 2 1 s (.ask (.put sampleForeign))).files 1).inside.chunks.rows.find? 5 =
        some row ∧
      ((sampleDiverged.after 2 1 s (.ask (.put sampleForeign))).files 1).inside.Holds
        row.descriptorId sampleTracks := by
  obtain ⟨s, hs, hput⟩ : ∃ s, sampleDiverged.stores[2]? = some (1, s) ∧
      outcome ((Operation.ask (.put sampleForeign)).run (s, sampleDiverged.files 1)) = .ok .done :=
    ⟨_, rfl, by with_unfolding_all rfl⟩
  obtain ⟨scope, -, -, htakes, -⟩ :=
    takes_put reached_sampleDiverged hs hput
  obtain ⟨row, hrow, -, hholds, -⟩ := htakes.row
  exact ⟨s, row, hs, hput, hrow, hholds.2 fun hscope => by cases hscope⟩

theorem misrefers_of_copy :
    (∃ s, samplePut.Reached ∧ samplePut.stores[1]? = some (0, s) ∧
      outcome ((Operation.ask (.find 5)).run (s, samplePut.files 0)) =
        .ok (.chunk (some sampleChunk))) ∧
    ∃ s row, sampleDiverged.Reached ∧ sampleDiverged.stores[2]? = some (1, s) ∧
      outcome ((Operation.ask (.put sampleChunk)).run (s, sampleDiverged.files 1)) = .ok .done ∧
      ((sampleDiverged.after 2 1 s (.ask (.put sampleChunk))).files 1).inside.chunks.rows.find? 5 =
        some row ∧
      ¬ ((sampleDiverged.after 2 1 s (.ask (.put sampleChunk))).files 1).inside.Holds
        row.descriptorId sampleChunk.descriptor.toTrackList := by
  refine ⟨⟨_, reached_samplePut, rfl, rfl⟩, _, ⟨1, [7]⟩, reached_sampleDiverged, rfl,
    rfl, rfl, fun h => ?_⟩
  have hother := h.unique (m := otherTracks) ⟨_, rfl, TrackList.decode_encode 1 otherTracks⟩
  exact absurd hother (by decide)

end Site
end ChunkStore
