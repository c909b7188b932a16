import ChunkStore.Proofs.Store.Session

namespace ChunkStore

open Attempt

def Phase.plain : Phase → Plain.Phase
  | initial => .initial
  | opened session => .opened session.writable session.id
  | closed => .closed

def Store.plain (s : Store) : PlainStore := ⟨s.path, s.config, s.phase.plain, s.version⟩

def File.Inverse (f : File) : Prop := ∀ c, f.container? = some c → c.Inverse

namespace Store

structure Fits (s : Store × File) (u : PlainStore × File) : Prop where
  file : s.2 = u.2
  plain : s.1.plain = u.1
  inverse : s.2.Inverse
  opened : ∀ session, s.1.phase = .opened session →
    ∃ held c, s.2 = .container held c ∧ session.Sound session.writable session.id c

variable {s : Store} {f : File}

lemma fits_closed (path : String) (config : StoreConfig) (version : Int32) (hf : f.Inverse) :
    Fits (⟨path, config, .closed, version⟩, f) (⟨path, config, .closed, version⟩, f) :=
  ⟨rfl, rfl, hf, fun _ h => by cases h⟩

lemma inverse_container {held : Bool} {c : Container} (hc : c.Inverse) :
    (File.container held c).Inverse := fun d hd => by
  obtain rfl : c = d := Option.some.inj hd
  exact hc

lemma inverse_contents? (hf : f.Inverse) {writable : Bool} {c : Container}
    (h : f.contents? writable = .ok c) : c.Inverse := by
  cases f with
  | container held d =>
    rw [File.eq_of_contents? h]
    exact hf d rfl
  | missing =>
    obtain rfl : Container.empty = c := by
      cases writable with
      | true => simpa [File.contents?] using h
      | false => simp [File.contents?] at h
    exact fun id bytes => by simp [Container.empty, Table.rows]
  | raw bytes =>
    obtain rfl : Container.empty = c := by
      by_cases hw : writable = true ∧ bytes = []
      · simpa [File.contents?, hw] using h
      · simp [File.contents?, hw] at h
    exact fun id bytes => by simp [Container.empty, Table.rows]
  | unreachable fault => cases h

lemma ids_commit_setUp {writable : Bool} {entropy : Uuid} {c : Container} {r : Int32 × StoreId}
    {t : Transaction} (h : Upgrade.setUp writable entropy (.begin writable c) = .ok r t) :
    (t.commit c).data = c.data :=
  Transaction.data_commit (Transaction.data_setUp writable entropy) h

lemma agree_openFile (h : Fits (s, f) (s.plain, f)) (writable : Bool) (entropy : Uuid) :
    Agree Fits (openFile writable entropy (s, f)) (PlainStore.openFile writable entropy (s.plain, f)) := by
  obtain ⟨path, config, phase, version⟩ := s
  cases phase with
  | opened session => exact agree_error _ h
  | closed => exact agree_error _ h
  | initial =>
    simp only [openFile, PlainStore.openFile, plain, Phase.plain]
    obtain ⟨e, ha⟩ | ⟨c, hc, ha⟩ := File.acquire_cases path writable config f
    · simp only [ha]
      exact agree_error e (fits_closed _ _ _ h.inverse)
    · have hi := inverse_contents? h.inverse hc
      simp only [ha]
      cases hu : Upgrade.setUp writable entropy (.begin writable c) with
      | error e t =>
        simp only [transact_error (inTransaction_error hu), Plain.transact_error hu]
        exact agree_error e (fits_closed _ _ _ (inverse_container hi))
      | ok r t =>
        have hd := ids_commit_setUp hu
        have hi' : (t.commit c).Inverse := hi.congr (congrArg Prod.fst hd).symm
        simp only [transact_ok (inTransaction_ok hu), Plain.transact_ok hu]
        refine agree_ok () ⟨rfl, rfl, inverse_container hi', fun session hs => ⟨true, _, rfl, ?_⟩⟩
        obtain rfl := Phase.opened.inj hs
        exact Session.sound_start hi' _ _ _

lemma agree_close (h : Fits (s, f) (s.plain, f)) :
    Fits (s.close f) (s.plain.close f) := by
  obtain ⟨path, config, phase, version⟩ := s
  have hrel : f.release.Inverse := by
    cases f with
    | container held c => exact inverse_container (h.inverse c rfl)
    | missing => exact h.inverse
    | raw bytes => exact h.inverse
    | unreachable fault => exact h.inverse
  cases phase with
  | initial => exact fits_closed _ _ _ h.inverse
  | closed => exact fits_closed _ _ _ h.inverse
  | opened session => exact fits_closed _ _ _ hrel

end Store

def PlainStore.Serves (op : Operation) (s : PlainStore × File) : Prop :=
  ∀ r id held c, op = .ask r → s.1.phase = .opened true id → s.2 = .container held c →
    Plain.Serves id c r

namespace PlainStore

variable {s : PlainStore} {writable : Bool} {id : StoreId} {r : Request} {c : Container}

lemma ask_opened (hs : s.phase = .opened writable id) (hw : r.isWriting = true → writable = true) :
    ask r (s, c) = mapState (fun c => (s, c)) (Plain.serve id r c) := by
  have hno : ¬ (r.isWriting && !writable) = true := by
    cases h : r.isWriting <;> simp_all
  simp only [ask, hs]
  rw [if_neg hno, within_run]

lemma ask_notWritable (hs : s.phase = .opened false id) (hr : r.isWriting = true) :
    ask r (s, c) = .error .notWritable (s, c) := by
  simp [ask, hs, hr]

end PlainStore

namespace Store

variable {s : Store} {f : File}

lemma agree_ask_opened {session : Session} {held : Bool} {c : Container} {r : Request}
    (hp : s.phase = .opened session) (hs : session.Sound session.writable session.id c)
    (hr : session.writable = true → Plain.Serves session.id c r) :
    Agree (fun s u => Fits (s.1, .container held s.2) (u.1, .container held u.2))
      (r.run (s, c)) (PlainStore.ask r (s.plain, c)) := by
  have hplain : s.plain.phase = .opened session.writable session.id := by
    simp only [plain, hp, Phase.plain]
  rw [Request.run_eq]
  by_cases hw : r.isWriting = true → session.writable = true
  · have hserves : Plain.Serves session.id c r := by
      cases h : r.isWriting with
      | true => exact hr (hw h)
      | false => exact Plain.serves_of_reading h
    rw [inSession_opened hp hw, PlainStore.ask_opened hplain hw]
    refine (Session.agree_serve hs hserves).mapState fun u c' ⟨hc, hu⟩ => ?_
    obtain rfl : u.2 = c' := hc
    refine ⟨rfl, ?_, inverse_container hu.inverse, fun session' h' => ⟨held, u.2, rfl, ?_⟩⟩
    · simp only [plain, hp, Phase.plain, hu.writable_eq, hu.id_eq]
    · obtain rfl := Phase.opened.inj h'
      rw [hu.writable_eq, hu.id_eq]
      exact hu
  · obtain ⟨hr, hn⟩ : r.isWriting = true ∧ session.writable = false := by simpa using hw
    rw [hn] at hplain
    rw [hr, inSession_notWritable hp hn, PlainStore.ask_notWritable hplain hr]
    refine agree_error _ ⟨rfl, rfl, inverse_container hs.inverse, fun session' h' => ?_⟩
    obtain rfl := Phase.opened.inj (hp.symm.trans h')
    exact ⟨held, c, rfl, hs⟩

lemma agree_ask (h : Fits (s, f) (s.plain, f)) {r : Request}
    (hr : PlainStore.Serves (.ask r) (s.plain, f)) :
    Agree Fits ((Operation.ask r).run (s, f)) (PlainStore.run (.ask r) (s.plain, f)) := by
  cases hs : s.session? with
  | none =>
    have hy : ∀ c, PlainStore.ask r (s.plain, c) = .error .storeClosed (s.plain, c) := fun c => by
      cases hp : s.phase with
      | initial => simp only [PlainStore.ask, plain, hp, Phase.plain]
      | closed => simp only [PlainStore.ask, plain, hp, Phase.plain]
      | opened session => simp [session?, hp] at hs
    rw [Operation.ask_closed hs, PlainStore.run, onFile_refused hy]
    exact agree_error _ h
  | some session =>
    have hp := phase_of_session? hs
    obtain ⟨held, c, hf, hsound⟩ := h.opened session hp
    obtain rfl : f = .container held c := hf
    have hserves (hw : session.writable = true) : Plain.Serves session.id c r :=
      hr r session.id held c rfl (by simp only [plain, hp, Phase.plain, hw]) rfl
    rw [Operation.run, PlainStore.run, onFile_container, onFile_container]
    exact (agree_ask_opened hp hsound hserves).mapState fun _ _ h => h

theorem agree_run (h : Fits (s, f) (s.plain, f)) {op : Operation}
    (hop : PlainStore.Serves op (s.plain, f)) :
    Agree Fits (op.run (s, f)) (PlainStore.run op (s.plain, f)) := by
  cases op with
  | openFile writable entropy => exact (agree_openFile h writable entropy).map _
  | close => exact agree_ok _ (agree_close h)
  | ask r => exact agree_ask h hop

end Store

def trace {σ : Type} (run : Operation → Attempt (σ × File) Answer) :
    List Operation → σ × File → List (Except Error Answer × File)
  | [], _ => []
  | op :: ops, s =>
    (outcome (run op s), (state (run op s)).2) :: trace run ops (state (run op s))

def PlainStore.ServesAll : List Operation → PlainStore × File → Prop
  | [], _ => True
  | op :: ops, s => Serves op s ∧ ServesAll ops (state (run op s))

namespace Store

/-- A file with the descriptor without tracks, which has the greatest number, and a chunk whose
descriptor is missing. -/
def sampleFile : File := .container false
  { descriptors := .stored (Rows.empty.insert 18446744073709551615 [0, 0, 0, 0])
    contents := .stored (Rows.empty.insert [0, 0, 0, 0] 18446744073709551615)
    chunks := .stored (Rows.empty.insert 3 ⟨9, []⟩) }

def sampleNew : Descriptor := ⟨⟨[⟨4, .text⟩], List.pairwise_singleton _ _, by decide⟩, none, 0⟩

def sampleOperations : List Operation :=
  [.openFile true .zero, .ask (.put (.ofParts .blank 7 [1, 2])),
    .ask (.put (.ofParts sampleNew 8 [])), .ask (.find 7), .ask (.find 3)]

end Store
end ChunkStore
