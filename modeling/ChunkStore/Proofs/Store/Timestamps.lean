import ChunkStore.Proofs.Chunk.Calls
import ChunkStore.Proofs.Store.Evolution
import ChunkStore.Proofs.Store.History
import ChunkStore.Proofs.Store.Persistence

/-!
What the greatest timestamp says about a store. A container has a row for each timestamp that was
put, whatever the descriptors of the chunks, so the answer for no chunk is told from the answer for
some just if the greatest timestamp that was put is not negative.
-/

namespace ChunkStore

open Attempt Transaction

namespace History

def Latest (h : History) : Option Int64 → Prop
  | none => h.stored = []
  | some n => (∃ x ∈ h.stored, x.timestamp = n) ∧ ∀ x ∈ h.stored, x.timestamp ≤ n

variable {h : History}

lemma Latest.eq_none_iff {latest : Option Int64} (hl : h.Latest latest) :
    latest = none ↔ h.stored = [] := by
  cases latest with
  | none => exact iff_of_true rfl hl
  | some n =>
    obtain ⟨⟨x, hx, -⟩, -⟩ := hl
    exact iff_of_false (Option.some_ne_none n) (List.ne_nil_of_mem hx)

lemma Latest.nonneg_iff {latest : Option Int64} (hl : h.Latest latest) :
    (∃ n ∈ latest, 0 ≤ n) ↔ ∃ x ∈ h.stored, 0 ≤ x.timestamp := by
  constructor
  · rintro ⟨n, rfl, hn⟩
    obtain ⟨⟨x, hx, rfl⟩, -⟩ := hl
    exact ⟨x, hx, hn⟩
  · rintro ⟨x, hx, h0⟩
    cases latest with
    | none => exact absurd hl (List.ne_nil_of_mem hx)
    | some n => exact ⟨n, rfl, Int64.le_trans h0 (hl.2 x hx)⟩

lemma exists_put {x : Stored} (hx : x ∈ h.stored) :
    ∃ e ∈ h, ∃ chunk, e.operation = .ask (.put chunk) ∧ chunk.timestamp = x.timestamp := by
  obtain ⟨e, he, hex⟩ := List.mem_filterMap.1 hx
  refine ⟨e, he, ?_⟩
  rw [Event.stored?] at hex
  split at hex
  next chunk _ hop _ => exact ⟨chunk, hop, congrArg Stored.timestamp (Option.some.inj hex)⟩
  · cases hex

end History

namespace Container

structure Carries (c : Container) (h : History) : Prop where
  readable : c.chunks.read = .ok c.chunks.rows
  payload : ∀ t, (c.chunks.rows.find? t).map ChunkRow.payload = (h.last? t).map Stored.payload

variable {c d : Container} {h : History} {e : Event}

lemma carries_empty : empty.Carries [] := ⟨rfl, fun _ => rfl⟩

lemma Carries.quiet (hc : c.Carries h) (hread : d.chunks.read = c.chunks.read)
    (hs : e.stored? = none) : d.Carries (e :: h) := by
  have hrows := Table.rows_congr hread
  refine ⟨by rw [hread, hrows, hc.readable], fun t => ?_⟩
  rw [hrows, hc.payload, History.last?, History.last?, History.stored_quiet hs]

lemma Carries.put (hc : c.Carries h) {x : Stored} (hx : e.stored? = some x) {id : UInt64}
    (hd : d.chunks = .stored (c.chunks.rows.insert x.timestamp ⟨id, x.payload⟩)) :
    d.Carries (e :: h) := by
  refine ⟨by rw [hd]; rfl, fun t => ?_⟩
  rw [hd, Table.rows, Rows.find?_insert, History.last?, History.stored_put hx]
  by_cases ht : t = x.timestamp
  · rw [if_pos ht, List.find?_cons_of_pos (by simpa using ht.symm)]
    rfl
  · rw [if_neg ht, List.find?_cons_of_neg (by simpa using Ne.symm ht)]
    exact hc.payload t

lemma Carries.row_iff (hc : c.Carries h) (t : Int64) :
    (∃ row, c.chunks.rows.find? t = some row) ↔ ∃ x ∈ h.stored, x.timestamp = t := by
  have hp := congrArg Option.isSome (hc.payload t)
  rw [Option.isSome_map, Option.isSome_map] at hp
  rw [← Option.isSome_iff_exists, hp, History.last?, List.find?_isSome]
  simp

lemma Carries.latest (hc : c.Carries h) : h.Latest (c.chunks.rows.last?.map Prod.fst) := by
  cases hl : c.chunks.rows.last? with
  | none =>
    refine List.eq_nil_iff_forall_not_mem.2 fun x hx => ?_
    obtain ⟨row, hrow⟩ := (hc.row_iff x.timestamp).2 ⟨x, hx, rfl⟩
    simp [Rows.find?, Rows.last?_eq_none hl] at hrow
  | some r =>
    refine ⟨(hc.row_iff r.1).1 ⟨r.2, Rows.find?_last? hl⟩, fun x hx => ?_⟩
    obtain ⟨row, hrow⟩ := (hc.row_iff x.timestamp).2 ⟨x, hx, rfl⟩
    have hle := Rows.le_of_last? hl (Rows.mem_of_find? hrow)
    exact hle

end Container

namespace Transaction

abbrev SameChunks : Transaction → Transaction → Prop := InvImage Eq fun t => t.view.chunks.read

lemma chunks_insertDescriptor (bytes : Bytes) : Respects SameChunks (insertDescriptor bytes) :=
  respects_insertDescriptor SameData.chunks (fun hu => hu.chunks.symm) bytes

end Transaction

namespace Session

variable {α : Type} {s s' : Session} {c d : Container} {h : History}

lemma data_transact (writing : Bool) {x : Attempt Transaction α} (hx : Respects SameData x) :
    Respects (InvImage Eq fun u : Session × Container => u.2.data) (transact writing (inTransaction x)) :=
  fun (s, c) => by
    cases h : x (.begin writing c) with
    | ok a t =>
      rw [transact_ok (inTransaction_ok h)]
      exact (data_commit hx h).symm
    | error e t =>
      rw [transact_error (inTransaction_error h)]
      rfl

lemma data_setEpoch (n : Int64) :
    Respects (InvImage Eq fun u : Session × Container => u.2.data) (setEpoch n) :=
  (data_transact true (opening_data.insertEpoch data_insertMeta n)).checked _ _

lemma data_putMetadata (key value : String) :
    Respects (InvImage Eq fun u : Session × Container => u.2.data) (putMetadata key value) :=
  (data_transact true (data_insertMeta key value)).checked _ _

lemma chunks_of_put {chunk : Chunk} (h : put chunk (s, c) = .ok () (s', d)) :
    ∃ id, d.chunks = .stored (c.chunks.rows.insert chunk.timestamp ⟨id, chunk.payload⟩) := by
  obtain ⟨e, k, v, u, hintern, -, hinsert, rfl⟩ := of_put_ok h
  have hread : c.chunks.read = v.view.chunks.read :=
    (respects_intern chunks_insertDescriptor s.id chunk.descriptor).of_ok hintern
  rw [Table.rows_congr hread]
  exact ⟨e.persistedId, (insertChunk_ok hinsert).2⟩

lemma carries_serve (hc : c.Carries h) (r : Request) (s : Session) :
    (state (r.serve (s, c))).2.Carries (⟨.ask r, outcome (r.serve (s, c))⟩ :: h) := by
  cases hrun : r.serve (s, c) with
  | error e u =>
    obtain ⟨s', d⟩ := u
    obtain rfl : d = c := by
      simpa [hrun] using r.atomic_serve (s, c) e
    exact hc.quiet rfl (Event.stored?_error _ e)
  | ok a u =>
    obtain ⟨s', d⟩ := u
    have hreads (hr : r.isWriting = false) : d.chunks.read = c.chunks.read := by
      have hcd : c = d := (Request.reads_serve hr).of_ok hrun
      rw [hcd]
    cases r with
    | find t => exact hc.quiet (hreads rfl) rfl
    | findBetween t u => exact hc.quiet (hreads rfl) rfl
    | maxTimestamp => exact hc.quiet (hreads rfl) rfl
    | epoch => exact hc.quiet (hreads rfl) rfl
    | metadata k => exact hc.quiet (hreads rfl) rfl
    | put chunk =>
      obtain ⟨_, hput, -⟩ := of_map_ok hrun
      obtain ⟨id, hd⟩ := chunks_of_put hput
      exact hc.put rfl hd
    | setEpoch n =>
      have hdata : c.data = d.data := ((data_setEpoch n).map _).of_ok hrun
      exact hc.quiet (congrArg Prod.snd hdata.symm) rfl
    | putMetadata key value =>
      have hdata : c.data = d.data := ((data_putMetadata key value).map _).of_ok hrun
      exact hc.quiet (congrArg Prod.snd hdata.symm) rfl

lemma timestamps_of_loadChunks {rows : List (Int64 × ChunkRow)} : ∀ {cs : List Chunk}
    {x y : Session × Transaction}, loadChunks rows x = .ok cs y →
      cs.map Chunk.timestamp = rows.map Prod.fst := by
  induction rows with
  | nil =>
    intro cs x y h
    obtain ⟨rfl, -⟩ := of_pure_ok h
    rfl
  | cons r rows ih =>
    intro cs x y h
    obtain ⟨chunk, x₁, hchunk, h⟩ := of_bind_ok h
    obtain ⟨cs', x₂, hcs, h⟩ := of_bind_ok h
    obtain ⟨rfl, -⟩ := of_pure_ok h
    obtain ⟨d, x₃, -, hd⟩ := of_bind_ok hchunk
    obtain ⟨rfl, -⟩ := of_pure_ok hd
    rw [List.map_cons, List.map_cons, ih hcs]
    rfl

lemma maxTimestamp_run (h : c.chunks.read = .ok c.chunks.rows) (s : Session) :
    maxTimestamp (s, c) = .ok ((c.chunks.rows.last?.map Prod.fst).getD (-1)) (s, c) :=
  transact_ok (inTransaction_ok (Plain.selectMaxTimestamp_run h))

lemma last_of_findBetween (h : c.chunks.read = .ok c.chunks.rows) {cs : List Chunk}
    (hcs : outcome (findBetween Int64.minValue Int64.maxValue (s, c)) = .ok cs) :
    cs.getLast?.map Chunk.timestamp = c.chunks.rows.last?.map Prod.fst := by
  have hall : c.chunks.rows.between Int64.minValue Int64.maxValue = c.chunks.rows.entries := by
    rw [Rows.between, List.filter_eq_self]
    simp
  have hsel := Plain.selectChunks_run h (show ¬ Int64.maxValue < Int64.minValue by decide)
  rw [hall] at hsel
  have htask := bind_ok (inTransaction_ok (m := s) hsel) loadChunks
  cases hload : loadChunks c.chunks.rows.entries (s, .begin false c) with
  | error e y =>
    rw [findBetween, transact_error (htask.trans hload)] at hcs
    cases hcs
  | ok cs' y =>
    rw [findBetween, transact_ok (htask.trans hload)] at hcs
    obtain rfl := Except.ok.inj hcs
    rw [← List.getLast?_map, timestamps_of_loadChunks hload, List.getLast?_map, Rows.last?]

end Session

namespace Operation

def findAll : Operation := .ask (.findBetween Int64.minValue Int64.maxValue)

variable {s : Store} {f : File} {h : History}

lemma carries_openFile (hc : f.inside.Carries h) (writable : Bool) (entropy : Uuid) (s : Store) :
    (state ((openFile writable entropy).run (s, f))).2.inside.Carries
      (⟨.openFile writable entropy, outcome ((openFile writable entropy).run (s, f))⟩ :: h) := by
  rw [run, state_map]
  by_cases hs : s.phase = .initial
  · obtain ⟨e, he⟩ | ⟨c, hin, ⟨e, t, -, he⟩ | ⟨version, id, t, hu, he⟩⟩ :=
      Store.openFile_cases hs writable entropy f
    · rw [he]
      exact hc.quiet rfl rfl
    · rw [File.inside_of_contents? hin] at hc
      rw [he]
      exact hc.quiet rfl rfl
    · rw [File.inside_of_contents? hin] at hc
      rw [he]
      exact hc.quiet (congrArg Prod.snd (Store.ids_commit_setUp hu)) rfl
  · rw [Store.openFile_again hs]
    exact hc.quiet rfl rfl

lemma carries_close (hc : f.inside.Carries h) (s : Store) (o : Except Error Answer) :
    (s.close f).2.inside.Carries (⟨.close, o⟩ :: h) := by
  rw [Store.close]
  split
  · exact hc.quiet (by rw [File.inside_release]) rfl
  · exact hc.quiet rfl rfl
  · exact hc.quiet rfl rfl

lemma carries_ask (hs : s.Backed f) (hc : f.inside.Carries h) (r : Request) :
    (state ((ask r).run (s, f))).2.inside.Carries
      (⟨.ask r, outcome ((ask r).run (s, f))⟩ :: h) := by
  cases hn : s.session? with
  | none =>
    rw [ask_closed hn]
    exact hc.quiet rfl (Event.stored?_error _ _)
  | some session =>
    have hp := Store.phase_of_session? hn
    obtain ⟨held, c, -, rfl, -⟩ := hs (by rw [hn]; rfl)
    by_cases hw : r.isWriting = true → session.writable = true
    · rw [ask_opened hp hw, outcome_mapState, state_mapState]
      exact Session.carries_serve hc r session
    · obtain ⟨hr, hno⟩ : r.isWriting = true ∧ session.writable = false := by simpa using hw
      rw [ask_notWritable hp hno hr]
      exact hc.quiet rfl (Event.stored?_error _ _)

lemma carries_run (hs : s.Backed f) (hc : f.inside.Carries h) (op : Operation) :
    (state (op.run (s, f))).2.inside.Carries (⟨op, outcome (op.run (s, f))⟩ :: h) := by
  cases op with
  | openFile writable entropy => exact carries_openFile hc writable entropy s
  | close => exact carries_close hc s _
  | ask r => exact carries_ask hs hc r

lemma outcome_maxTimestamp {session : Session} {c : Container} (hp : s.phase = .opened session)
    (hc : c.chunks.read = .ok c.chunks.rows) (held : Bool) :
    outcome ((ask .maxTimestamp).run (s, .container held c)) =
      .ok (.number ((c.chunks.rows.last?.map Prod.fst).getD (-1))) := by
  rw [ask_opened hp (by rintro ⟨⟩), outcome_mapState, Request.serve,
    map_ok (Session.maxTimestamp_run hc session), outcome_ok]

lemma last_of_findAll {session : Session} {c : Container} (hp : s.phase = .opened session)
    (hc : c.chunks.read = .ok c.chunks.rows) {held : Bool} {cs : List Chunk}
    (h : outcome (findAll.run (s, .container held c)) = .ok (.chunks cs)) :
    cs.getLast?.map Chunk.timestamp = c.chunks.rows.last?.map Prod.fst := by
  rw [findAll, ask_opened hp (by rintro ⟨⟩), outcome_mapState, Request.serve, outcome_map] at h
  cases hcs : outcome (Session.findBetween Int64.minValue Int64.maxValue (session, c)) with
  | ok cs' =>
    obtain rfl : cs' = cs := by simpa [hcs, Except.map] using h
    exact Session.last_of_findBetween hc hcs
  | error e => simp [hcs, Except.map] at h

end Operation

/-- What the greatest timestamp is meant to tell: whether there is a chunk in the container, and
which one the last is. -/
def Store.TellsLast (s : Store) (f : File) : Prop :=
  ∃ n, outcome ((Operation.ask .maxTimestamp).run (s, f)) = .ok (.number n) ∧
    (n = -1 ↔ f.inside.chunks.rows.entries = []) ∧
      (f.inside.chunks.rows.entries ≠ [] → 0 ≤ n ∧ ∃ cs chunk,
        outcome (Operation.findAll.run (s, f)) = .ok (.chunks cs) ∧
          cs.getLast? = some chunk ∧ chunk.timestamp = n)

lemma Store.tellsLast_iff {s : Store} {session : Session} {held : Bool} {c : Container}
    (hp : s.phase = .opened session) (hc : c.chunks.read = .ok c.chunks.rows) :
    s.TellsLast (.container held c) ↔ c.chunks.rows.last? = none ∨
      (∃ n ∈ c.chunks.rows.last?.map Prod.fst, 0 ≤ n) ∧
        ∃ cs, outcome (Operation.findAll.run (s, .container held c)) = .ok (.chunks cs) := by
  have hmax := Operation.outcome_maxTimestamp hp hc held
  have hempty : c.chunks.rows.last? = none ↔ c.chunks.rows.entries = [] :=
    List.getLast?_eq_none_iff
  rw [TellsLast, File.inside_container]
  cases hl : c.chunks.rows.last? with
  | none =>
    rw [hl] at hmax
    exact iff_of_true ⟨-1, hmax, iff_of_true rfl (hempty.1 hl), absurd (hempty.1 hl)⟩ (.inl rfl)
  | some r =>
    rw [hl] at hmax
    have hne : c.chunks.rows.entries ≠ [] := mt hempty.2 (by simp [hl])
    constructor
    · rintro ⟨n, hn, -, hlast⟩
      obtain ⟨h0, cs, chunk, hcs, -, -⟩ := hlast hne
      obtain rfl : r.1 = n := by simpa [hmax] using hn
      exact .inr ⟨⟨r.1, rfl, h0⟩, cs, hcs⟩
    · rintro (hno | ⟨⟨n, hn, h0⟩, cs, hcs⟩)
      · cases hno
      · obtain rfl : r.1 = n := Option.some.inj hn
        have hlast := Operation.last_of_findAll hp hc hcs
        rw [hl, Option.map_some, Option.map_eq_some_iff] at hlast
        obtain ⟨chunk, hchunk, htime⟩ := hlast
        have hsome : r.1 ≠ -1 := fun hn => by
          rw [hn] at h0
          exact absurd h0 (by decide)
        exact ⟨r.1, hmax, iff_of_false hsome hne, fun _ => ⟨h0, cs, chunk, hcs, hchunk, htime⟩⟩

namespace World

variable {w : World} {h : History} {s : Store}

lemma Reached.findAll_ok (hw : Reached w h) (hs : s ∈ w.stores) (ho : s.session?.isSome = true) :
    ∃ cs, outcome (Operation.findAll.run (s, w.file)) = .ok (.chunks cs) := by
  obtain ⟨session, hsession⟩ := Option.isSome_iff_exists.1 ho
  obtain ⟨c, -, hc, hsound⟩ := hw.consistent
  obtain ⟨cs, hrun, -⟩ := hc.findBetween session.id Int64.minValue Int64.maxValue
  rw [Operation.findAll, outcome_ask (hsound s hs) (Store.phase_of_session? hsession) rfl, Plain.serve, map_ok hrun]
  exact ⟨cs, rfl⟩

lemma Run.carries (hw : Run ⟨.missing, []⟩ w h) : w.file.inside.Carries h := by
  induction hw with
  | start => exact Container.carries_empty
  | create path config _ ih => exact ih
  | call i op hw hi ih =>
    -- only a store that the file belongs to can be open, so `op` works on what the file has
    exact Operation.carries_run ((hw.follows (by simp)).1 _ (List.mem_of_getElem? hi)) ih op

theorem maxTimestamp_tells_iff (hw : Run ⟨.missing, []⟩ w h) (hs : s ∈ w.stores)
    (ho : s.session?.isSome = true) :
    (∃ latest, h.Latest latest ∧
      outcome ((Operation.ask .maxTimestamp).run (s, w.file)) = .ok (.number (latest.getD (-1))) ∧
        ∀ cs, outcome (Operation.findAll.run (s, w.file)) = .ok (.chunks cs) →
          cs.getLast?.map Chunk.timestamp = latest) ∧
      (w.file.inside.chunks.rows.entries = [] ↔ h.stored = []) ∧
      (s.TellsLast w.file ↔ h.stored = [] ∨ (∃ x ∈ h.stored, 0 ≤ x.timestamp) ∧
        ∃ cs, outcome (Operation.findAll.run (s, w.file)) = .ok (.chunks cs)) ∧
      (Reached w h → ∃ cs, outcome (Operation.findAll.run (s, w.file)) = .ok (.chunks cs)) ∧
      ((∀ e ∈ h, ∀ chunk, e.operation = .ask (.put chunk) → chunk.Built) →
        ∀ x ∈ h.stored, 0 ≤ x.timestamp) := by
  obtain ⟨session, hsession⟩ := Option.isSome_iff_exists.1 ho
  have hp := Store.phase_of_session? hsession
  obtain ⟨held, c, -, hfile, -⟩ := (hw.follows (by simp)).1 s hs ho
  have hc := hw.carries
  rw [hfile, File.inside_container] at hc
  have hlatest := hc.latest
  have hnone : c.chunks.rows.last? = none ↔ h.stored = [] := by
    rw [← hlatest.eq_none_iff, Option.map_eq_none_iff]
  refine ⟨⟨_, hlatest, ?_, fun cs hcs => ?_⟩, ?_, ?_,
    fun hreached => hreached.findAll_ok hs ho, fun hbuilt x hx => ?_⟩
  · rw [hfile]
    exact Operation.outcome_maxTimestamp hp hc.readable held
  · rw [hfile] at hcs
    exact Operation.last_of_findAll hp hc.readable hcs
  · rw [hfile, File.inside_container, ← hnone]
    exact List.getLast?_eq_none_iff.symm
  · rw [hfile, Store.tellsLast_iff hp hc.readable, hnone, hlatest.nonneg_iff]
  · obtain ⟨e, he, chunk, hop, htime⟩ := History.exists_put hx
    rw [← htime]
    exact (hbuilt e he chunk hop).timestamp_nonneg

def samplePutAt (t : Int64) : Operation := .ask (.put (.ofParts .blank t []))

def sampleDated (t : Int64) : Store × File := state ((samplePutAt t).run sampleOpened)

def sampleDates (t : Int64) : History :=
  [⟨samplePutAt t, outcome ((samplePutAt t).run sampleOpened)⟩,
    ⟨sampleOpen, outcome (sampleOpen.run (.create "chunks" {}, .missing))⟩]

lemma run_sampleDated (t : Int64) :
    Run ⟨.missing, []⟩ ⟨(sampleDated t).2, [(sampleDated t).1]⟩ (sampleDates t) := by
  have hcreated : Run ⟨.missing, []⟩ ⟨.missing, [.create "chunks" {}]⟩ [] := .create "chunks" {} .start
  have hopened : Run ⟨.missing, []⟩ ⟨sampleOpened.2, [sampleOpened.1]⟩ (sampleDates t).tail :=
    Run.call 0 sampleOpen hcreated (s := .create "chunks" {}) rfl
  exact Run.call 0 (samplePutAt t) hopened (s := sampleOpened.1) rfl

theorem maxTimestamp_tells_iff_sample :
    Run ⟨.missing, []⟩ ⟨(sampleDated 7).2, [(sampleDated 7).1]⟩ (sampleDates 7) ∧
      (sampleDated 7).1.session?.isSome = true ∧ (sampleDated 7).1.TellsLast (sampleDated 7).2 := by
  have hopen : (sampleDated 7).1.session?.isSome = true := by decide +kernel
  have hput : ∃ x ∈ (sampleDates 7).stored, 0 ≤ x.timestamp := by decide +kernel
  have hread : ∃ cs, outcome (Operation.findAll.run (sampleDated 7)) = .ok (.chunks cs) := ⟨_, rfl⟩
  obtain ⟨-, -, htells, -⟩ := maxTimestamp_tells_iff (run_sampleDated 7) (by simp) hopen
  exact ⟨run_sampleDated 7, hopen, htells.2 (.inr ⟨hput, hread⟩)⟩

theorem not_tellsLast_of_negative :
    Run ⟨.missing, []⟩ ⟨(sampleDated (-1)).2, [(sampleDated (-1)).1]⟩ (sampleDates (-1)) ∧
      outcome ((Operation.ask .maxTimestamp).run (sampleDated (-1))) = .ok (.number (-1)) ∧
      (sampleDated (-1)).2.inside.chunks.rows.entries ≠ [] ∧
      ¬ (sampleDated (-1)).1.TellsLast (sampleDated (-1)).2 := by
  have hmax : outcome ((Operation.ask .maxTimestamp).run (sampleDated (-1))) =
      .ok (.number (-1)) := by rfl
  have hrow : (sampleDated (-1)).2.inside.chunks.rows.entries ≠ [] := by decide +kernel
  refine ⟨run_sampleDated (-1), hmax, hrow, ?_⟩
  rintro ⟨n, hn, hnone, -⟩
  obtain rfl : -1 = n := by simpa [hmax] using hn
  exact hrow (hnone.1 rfl)

end World
end ChunkStore
