import ChunkStore.Proofs.Store.Records
import ChunkStore.Proofs.Store.Simulation

namespace ChunkStore

open Attempt

lemma Event.stored?_error (op : Operation) (e : Error) : stored? ⟨op, .error e⟩ = none := by
  cases op with
  | openFile writable entropy => rfl
  | close => rfl
  | ask r => cases r <;> rfl

lemma Event.found_error (op : Operation) (e : Error) : found ⟨op, .error e⟩ = [] := by
  cases op with
  | openFile writable entropy => rfl
  | close => rfl
  | ask r => cases r <;> rfl

lemma Container.Records.failed {c : Container} {h : History} (hc : c.Records h) (op : Operation)
    (e : Error) : c.Records (⟨op, .error e⟩ :: h) :=
  hc.quiet (Event.stored?_error op e) (by simp [Event.found_error])

/-- The container is in the file, or would be made there. -/
def File.Has (f : File) (c : Container) : Prop :=
  f = .missing ∧ c = .empty ∨ ∃ held, f = .container held c

namespace File

variable {f : File} {c d : Container}

lemma Has.eq_of_contents? (hf : f.Has c) {writable : Bool} (h : f.contents? writable = .ok d) :
    d = c := by
  obtain ⟨rfl, rfl⟩ | ⟨held, rfl⟩ := hf
  · cases writable with
    | true => simpa [contents?] using h.symm
    | false => simp [contents?] at h
  · exact File.eq_of_contents? h

lemma Has.release (hf : f.Has c) : f.release.Has c := by
  obtain ⟨rfl, rfl⟩ | ⟨held, rfl⟩ := hf
  · exact .inl ⟨rfl, rfl⟩
  · exact .inr ⟨false, rfl⟩

lemma Has.inverse (hf : f.Has c) (hc : c.Inverse) : f.Inverse := fun d hd => by
  obtain ⟨rfl, rfl⟩ | ⟨held, rfl⟩ := hf
  · cases hd
  · obtain rfl := Option.some.inj hd
    exact hc

end File

namespace Store

variable {s : Store} {f : File} {c : Container} {h : History}

def SoundOn (f : File) (c : Container) (s : Store) : Prop :=
  ∀ session, s.phase = .opened session →
    (∃ held, f = .container held c) ∧ session.Sound session.writable session.id c

lemma SoundOn.fits (hs : s.SoundOn f c) (hf : f.Has c) (hc : c.Inverse) :
    Fits (s, f) (s.plain, f) :=
  ⟨rfl, rfl, hf.inverse hc, fun session hp => by
    obtain ⟨⟨held, rfl⟩, hsound⟩ := hs session hp
    exact ⟨held, c, rfl, hsound⟩⟩

lemma Fits.soundOn {u : PlainStore × File} (hfit : Fits (s, f) u) (hf : f.Has c) :
    s.SoundOn f c := fun session hp => by
  obtain ⟨held, d, hd, hsound⟩ := hfit.opened session hp
  obtain rfl : f = .container held d := hd
  obtain ⟨hm, -⟩ | ⟨held', heq⟩ := hf
  · cases hm
  · obtain ⟨rfl, rfl⟩ : held = held' ∧ d = c := by simpa using heq
    exact ⟨⟨held, rfl⟩, hsound⟩

lemma serves_of_allows (hc : c.Records h) {session : Session} (hp : s.phase = .opened session)
    {r : Request} (ha : h.Allows s (.ask r)) : Plain.Serves session.id c r := fun chunk hr =>
  hc.faithful (ha chunk session (congrArg _ hr) hp)

lemma records_ask (hc : c.Records h) {session : Session} (hp : s.phase = .opened session)
    (hs : session.Sound session.writable session.id c) {r : Request} (ha : h.Allows s (.ask r)) :
    (state (r.run (s, c))).2.Records (⟨.ask r, outcome (r.run (s, c))⟩ :: h) ∧
      c.Extends (state (r.run (s, c))).2 := by
  have hserves := serves_of_allows hc hp ha
  rw [Request.run_eq]
  by_cases hw : r.isWriting = true → session.writable = true
  · obtain ⟨ho, hst, -⟩ := Session.agree_serve hs hserves
    rw [inSession_opened hp hw, outcome_mapState, state_mapState, ho]
    change (state (r.serve (session, c))).2.Records _ ∧ c.Extends (state (r.serve (session, c))).2
    rw [hst]
    exact hc.serve hserves
  · obtain ⟨hr, hn⟩ : r.isWriting = true ∧ session.writable = false := by simpa using hw
    rw [hr, inSession_notWritable hp hn, outcome_error, state_error]
    exact ⟨hc.failed _ _, Container.extends_of_ids rfl⟩

structure Leads (f : File) (c : Container) (h : History) (f' : File) (c' : Container) : Prop where
  has : f'.Has c'
  records : c'.Records h
  grows : c.Extends c'
  stays : (∃ held, f = .container held c) → ∃ held, f' = .container held c'

lemma leads_openFile (hf : f.Has c) (hc : c.Records h) (writable : Bool) (entropy : Uuid) :
    ∃ c', Leads f c (⟨.openFile writable entropy,
        outcome ((Operation.openFile writable entropy).run (s, f))⟩ :: h)
      (state (openFile writable entropy (s, f))).2 c' := by
  have hsame := Container.extends_of_ids (c := c) rfl
  have hquiet {d : Container} (hd : d.Records h) (o : Except Error Answer) :
      d.Records (⟨.openFile writable entropy, o⟩ :: h) :=
    hd.quiet rfl (by simp [Event.found])
  by_cases hs : s.phase = .initial
  · obtain ⟨e, he⟩ | ⟨d, hd, ⟨e, t, -, he⟩ | ⟨version, id, t, hu, he⟩⟩ :=
      openFile_cases hs writable entropy f
    · rw [he]
      exact ⟨c, hf, hquiet hc _, hsame, fun hheld => hheld⟩
    · obtain rfl := hf.eq_of_contents? hd
      rw [he]
      exact ⟨d, .inr ⟨false, rfl⟩, hquiet hc _, hsame, fun _ => ⟨false, rfl⟩⟩
    · obtain rfl := hf.eq_of_contents? hd
      have hdata := (ids_commit_setUp hu).symm
      rw [he]
      exact ⟨t.commit d, .inr ⟨true, rfl⟩, hquiet (hc.congr hdata) _,
        Container.extends_of_ids (congrArg Prod.fst hdata), fun _ => ⟨true, rfl⟩⟩
  · rw [openFile_again hs]
    exact ⟨c, hf, hquiet hc _, hsame, fun hheld => hheld⟩

lemma leads_close (hf : f.Has c) (hc : c.Records h) (o : Except Error Answer) :
    Leads f c (⟨.close, o⟩ :: h) (s.close f).2 c := by
  refine ⟨?_, hc.quiet rfl (by simp [Event.found]), Container.extends_of_ids rfl, ?_⟩
  · rw [close]
    split
    · exact hf.release
    · exact hf
    · exact hf
  · rintro ⟨held, rfl⟩
    rw [close]
    split
    · exact ⟨false, rfl⟩
    · exact ⟨held, rfl⟩
    · exact ⟨held, rfl⟩

lemma leads_ask (hf : f.Has c) (hc : c.Records h) (hs : s.SoundOn f c) {r : Request}
    (ha : h.Allows s (.ask r)) :
    ∃ c', Leads f c (⟨.ask r, outcome ((Operation.ask r).run (s, f))⟩ :: h)
      (state ((Operation.ask r).run (s, f))).2 c' := by
  cases hn : s.session? with
  | none =>
    rw [Operation.ask_closed hn]
    exact ⟨c, hf, hc.failed _ _, Container.extends_of_ids rfl, fun hheld => hheld⟩
  | some session =>
    have hp := phase_of_session? hn
    obtain ⟨⟨held, rfl⟩, hsound⟩ := hs session hp
    obtain ⟨hrec, hgrow⟩ := records_ask hc hp hsound ha
    rw [Operation.run, onFile_container, outcome_mapState, state_mapState]
    exact ⟨_, .inr ⟨held, rfl⟩, hrec, hgrow, fun _ => ⟨held, rfl⟩⟩

theorem leads_run (hf : f.Has c) (hc : c.Records h) (hs : s.SoundOn f c) {op : Operation}
    (ha : h.Allows s op) :
    ∃ c', Leads f c (⟨op, outcome (op.run (s, f))⟩ :: h) (state (op.run (s, f))).2 c' := by
  cases op with
  | openFile writable entropy =>
    obtain ⟨c', hl⟩ := leads_openFile (s := s) hf hc writable entropy
    refine ⟨c', ?_⟩
    rw [Operation.run, state_map]
    exact hl
  | close => exact ⟨c, leads_close hf hc _⟩
  | ask r => exact leads_ask hf hc hs ha

lemma SoundOn.leads {f' : File} {c' : Container} (hs : s.SoundOn f c) (hl : Leads f c h f' c') :
    s.SoundOn f' c' := fun session hp =>
  ⟨hl.stays (hs session hp).1, (hs session hp).2.extend hl.grows hl.records.inverse⟩

lemma SoundOn.run (hf : f.Has c) (hc : c.Records h) (hs : s.SoundOn f c) {op : Operation}
    (ha : h.Allows s op) {c' : Container}
    (hhas : (state (op.run (s, f))).2.Has c') :
    (state (op.run (s, f))).1.SoundOn (state (op.run (s, f))).2 c' := by
  have hserves : PlainStore.Serves op (s.plain, f) := by
    intro r id held d hop hphase hd
    subst hop
    cases hp : s.phase with
    | initial => simp [plain, hp, Phase.plain] at hphase
    | closed => simp [plain, hp, Phase.plain] at hphase
    | opened session =>
      obtain ⟨-, rfl⟩ : session.writable = true ∧ session.id = id := by
        simpa [plain, hp, Phase.plain] using hphase
      obtain ⟨⟨held', hd'⟩, -⟩ := hs session hp
      obtain ⟨-, rfl⟩ : held = held' ∧ d = c := by simpa using hd.symm.trans hd'
      exact serves_of_allows hc hp ha
  exact (agree_run (hs.fits hf hc.inverse) hserves).2.soundOn hhas

end Store

namespace World

def Consistent (w : World) (h : History) : Prop :=
  ∃ c, w.file.Has c ∧ c.Records h ∧ ∀ s ∈ w.stores, s.SoundOn w.file c

variable {w : World} {h : History}

lemma consistent_start : Consistent ⟨.missing, []⟩ [] :=
  ⟨.empty, .inl ⟨rfl, rfl⟩, Container.records_empty, by simp⟩

lemma Consistent.create (hw : w.Consistent h) (path : String) (config : StoreConfig) :
    (w.create path config).Consistent h := by
  obtain ⟨c, hf, hc, hs⟩ := hw
  refine ⟨c, hf, hc, fun s hm => ?_⟩
  rcases List.mem_append.1 hm with hm | hm
  · exact hs s hm
  · obtain rfl : s = Store.create path config := by simpa using hm
    exact fun session hp => by cases hp

lemma Consistent.after (hw : w.Consistent h) {i : Nat} {s : Store} (hi : w.stores[i]? = some s)
    {op : Operation} (ha : h.Allows s op) :
    (w.after i s op).Consistent (⟨op, outcome (op.run (s, w.file))⟩ :: h) := by
  obtain ⟨c, hf, hc, hs⟩ := hw
  have hsound := hs s (List.mem_of_getElem? hi)
  obtain ⟨c', hl⟩ := Store.leads_run hf hc hsound ha
  refine ⟨c', hl.has, hl.records, fun u hu => ?_⟩
  rcases List.mem_or_eq_of_mem_set hu with hu | rfl
  · exact (hs u hu).leads hl
  · exact hsound.run hf hc ha hl.has

theorem Reached.consistent (hw : Reached w h) : w.Consistent h := by
  induction hw with
  | start => exact consistent_start
  | create path config _ ih => exact ih.create path config
  | call i op _ hi ha ih => exact ih.after hi ha

def Finds (scope : StoreId) : Option Stored → Option Chunk → Prop
  | none, none => True
  | some x, some chunk =>
    ∃ id, id ≠ 0 ∧ chunk = .ofParts ⟨x.tracks, some scope, id⟩ x.timestamp x.payload
  | _, _ => False

lemma outcome_ask {s : Store} {session : Session} {f : File} {c : Container} (hs : s.SoundOn f c)
    (hp : s.phase = .opened session) {r : Request} (hr : r.isWriting = false) :
    outcome ((Operation.ask r).run (s, f)) = outcome (Plain.serve session.id r c) := by
  obtain ⟨⟨held, rfl⟩, hsound⟩ := hs session hp
  have hw : r.isWriting = true → session.writable = true := fun h => by simp [hr] at h
  rw [Operation.ask_opened hp hw, outcome_mapState]
  exact (Session.agree_serve hsound (Plain.serves_of_reading hr)).1

theorem finds_last_put (hw : Reached w h) {s : Store} {session : Session} (hs : s ∈ w.stores) (hp : s.phase = .opened session) :
    (∀ t, ∃ found, outcome ((Operation.ask (.find t)).run (s, w.file)) = .ok (.chunk found) ∧
        Finds session.id (h.last? t) found) ∧
      (∀ first last, ∃ cs,
        outcome ((Operation.ask (.findBetween first last)).run (s, w.file)) = .ok (.chunks cs) ∧
          cs.Pairwise (fun a b => a.timestamp < b.timestamp) ∧ (last < first → cs = []) ∧
          ∀ chunk, chunk ∈ cs ↔ (first ≤ chunk.timestamp ∧ chunk.timestamp ≤ last) ∧
            outcome ((Operation.ask (.find chunk.timestamp)).run (s, w.file)) =
              .ok (.chunk (some chunk))) ∧
      ∃ n, outcome ((Operation.ask .maxTimestamp).run (s, w.file)) = .ok (.number n) ∧
        ((h.stored = [] ∧ n = -1) ∨
          (∃ x ∈ h.stored, x.timestamp = n) ∧ ∀ x ∈ h.stored, x.timestamp ≤ n) := by
  obtain ⟨c, -, hc, hsound⟩ := hw.consistent
  have hfind (t : Int64) := outcome_ask (hsound s hs) hp (r := .find t) rfl
  refine ⟨fun t => ?_, fun first last => ?_, ?_⟩
  · rw [hfind]
    obtain ⟨hl, hrun⟩ | ⟨x, id, hl, hid, -, hrun⟩ := hc.find? session.id t
    · rw [Plain.serve, map_ok hrun, hl]
      exact ⟨none, rfl, trivial⟩
    · rw [Plain.serve, map_ok hrun, hl]
      obtain rfl := (History.mem_of_last? hl).2
      exact ⟨_, rfl, id, hid, rfl⟩
  · obtain ⟨cs, hrun, hsorted, hmem⟩ := hc.findBetween session.id first last
    rw [outcome_ask (hsound s hs) hp rfl, Plain.serve, map_ok hrun]
    refine ⟨cs, rfl, hsorted, fun hlast => ?_, fun chunk => ?_⟩
    · apply List.eq_nil_iff_forall_not_mem.2
      intro chunk hchunk
      obtain ⟨hle, hle'⟩ := ((hmem chunk).1 hchunk).1
      exact absurd (Int64.le_trans hle hle') (by simpa using hlast)
    · rw [hmem, hfind, Plain.serve, outcome_map]
      obtain ⟨-, hrun⟩ | ⟨x, id, -, -, -, hrun⟩ := hc.find? session.id chunk.timestamp
      · simp [hrun, Except.map]
      · simp [hrun, Except.map]
  · obtain ⟨n, hrun, hn⟩ := hc.maxTimestamp
    rw [outcome_ask (hsound s hs) hp rfl, Plain.serve, map_ok hrun]
    exact ⟨n, rfl, hn⟩

def sampleOpen : Operation := .openFile true .zero

def samplePut : Operation := .ask (.put (.ofParts ⟨⟨[⟨3, .text⟩], by simp, by decide⟩, none, 0⟩ 7 [1]))

def sampleOpened : Store × File := state (sampleOpen.run (.create "chunks" {}, .missing))

def sampleStored : Store × File := state (samplePut.run sampleOpened)

def sampleHistory : History :=
  [⟨samplePut, outcome (samplePut.run sampleOpened)⟩,
    ⟨sampleOpen, outcome (sampleOpen.run (.create "chunks" {}, .missing))⟩]

theorem finds_last_put_sample :
    Reached ⟨sampleStored.2, [sampleStored.1]⟩ sampleHistory ∧
      (sampleHistory.last? 7).isSome = true ∧
      ∃ session, sampleStored.1.phase = .opened session ∧
        ∃ found, outcome ((Operation.ask (.find 7)).run sampleStored) = .ok (.chunk found) ∧
          Finds session.id (sampleHistory.last? 7) found := by
  have hopened : Reached ⟨sampleOpened.2, [sampleOpened.1]⟩ sampleHistory.tail := by
    apply Reached.call 0 sampleOpen (.create "chunks" {} .start) rfl
    rintro chunk session ⟨⟩
  have hreached : Reached ⟨sampleStored.2, [sampleStored.1]⟩ sampleHistory := by
    apply Reached.call 0 samplePut hopened rfl
    rintro chunk session ⟨⟩ -
    exact .built (b := .add (.empty none) ⟨3, .text⟩) (by decide +kernel)
  have hopen : sampleStored.1.session?.isSome = true := by decide +kernel
  obtain ⟨session, hsession⟩ := Option.isSome_iff_exists.1 hopen
  have hp := Store.phase_of_session? hsession
  exact ⟨hreached, by decide +kernel, session, hp,
    (finds_last_put hreached (by simp) hp).1 7⟩

end World
end ChunkStore
