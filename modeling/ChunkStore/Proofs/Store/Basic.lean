import ChunkStore.Proofs.Attempt
import ChunkStore.Store.Operation

namespace ChunkStore

open Attempt

section

variable {μ α : Type} {writing : Bool} {x : Attempt (μ × Transaction) α} {m n : μ} {c : Container}
  {t u : Transaction}

lemma transact_ok {a : α} (h : x (m, .begin writing c) = .ok a (n, t)) :
    transact writing x (m, c) = .ok a (n, t.commit c) := by
  simp only [transact, h]

lemma transact_error {e : Error} (h : x (m, .begin writing c) = .error e (n, t)) :
    transact writing x (m, c) = .error e (n, c) := by
  simp only [transact, h]

lemma inTransaction_ok {x : Attempt Transaction α} {a : α} (h : x t = .ok a u) :
    inTransaction x (m, t) = .ok a (m, u) := by
  simp only [inTransaction, within, h]

lemma inTransaction_error {x : Attempt Transaction α} {e : Error} (h : x t = .error e u) :
    inTransaction x (m, t) = .error e (m, u) := by
  simp only [inTransaction, within, h]

end

def Uuid.zero : Uuid := ⟨List.replicate 32 ⟨0, by decide⟩, rfl⟩

def Descriptor.blank : Descriptor := ⟨⟨[], .nil, by decide⟩, none, 0⟩

namespace File

lemma acquire_cases (path : String) (writable : Bool) (config : StoreConfig) (f : File) :
    (∃ e, acquire path writable config f = .error e f) ∨
      ∃ c, f.contents? writable = .ok c ∧
        acquire path writable config f = .ok c (.container true c) := by
  rw [acquire]
  cases config.validate with
  | error e => exact .inl ⟨e, rfl⟩
  | ok _ =>
    cases h : f.contents? writable with
    | error fault => exact .inl ⟨_, rfl⟩
    | ok c => exact .inr ⟨c, rfl, rfl⟩

lemma eq_of_contents? {writable held : Bool} {c d : Container}
    (h : (container held c).contents? writable = .ok d) : d = c := by
  cases held with
  | false => simpa [contents?] using h.symm
  | true => simp [contents?] at h

lemma eq_of_reader {f : File} {c : Container} (h : f.contents? false = .ok c) :
    f = container false c := by
  cases f with
  | missing => cases h
  | raw bytes => simp [contents?] at h
  | container held d =>
    cases held with
    | false => rw [Except.ok.inj h]
    | true => cases h
  | unreachable fault => cases h

@[simp] lemma inside_container (held : Bool) (c : Container) : (container held c).inside = c := rfl

lemma inside_of_contents? {writable : Bool} {f : File} {c : Container}
    (h : f.contents? writable = .ok c) : f.inside = c := by
  cases f with
  | missing =>
    cases writable with
    | true => exact Except.ok.inj h
    | false => cases h
  | raw bytes =>
    rw [contents?] at h
    split at h
    · exact Except.ok.inj h
    · cases h
  | container held d => exact (eq_of_contents? h).symm
  | unreachable fault => cases h

end File

namespace Store

variable {μ α β : Type}

lemma phase_of_session? {s : Store} {session : Session} (h : s.session? = some session) :
    s.phase = .opened session := by
  cases hs : s.phase with
  | opened u =>
    obtain rfl : u = session := by simpa [session?, hs] using h
    rfl
  | initial => simp [session?, hs] at h
  | closed => simp [session?, hs] at h

lemma inSession_opened {s : Store} {session : Session} (hs : s.phase = .opened session)
    {writing : Bool} (hw : writing = true → session.writable = true)
    (x : Attempt (Session × Container) α) (c : Container) :
    inSession writing x (s, c) =
      mapState (fun r => ({ s with phase := .opened r.1 }, r.2)) (x (session, c)) := by
  have hno : ¬ (writing && !session.writable) = true := by
    cases writing <;> simp_all
  simp only [inSession, hs]
  rw [if_neg hno]
  cases x (session, c) <;> rfl

lemma inSession_notWritable {s : Store} {session : Session} (hs : s.phase = .opened session)
    (hw : session.writable = false) (x : Attempt (Session × Container) α) (c : Container) :
    inSession true x (s, c) = .error .notWritable (s, c) := by
  simp [inSession, hs, hw]

lemma inSession_closed {s : Store} (hs : s.session? = none) (writing : Bool)
    (x : Attempt (Session × Container) α) (c : Container) :
    inSession writing x (s, c) = .error .storeClosed (s, c) := by
  cases h : s.phase with
  | opened session => simp [session?, h] at hs
  | initial => simp only [inSession, h]
  | closed => simp only [inSession, h]

lemma map_inSession (f : α → β) (writing : Bool) (x : Attempt (Session × Container) α) :
    f <$> inSession writing x = inSession writing (f <$> x) := by
  funext ⟨s, c⟩
  cases hs : s.phase with
  | initial =>
    have hn : s.session? = none := by rw [session?, hs]
    rw [map_error (inSession_closed hn _ _ _), inSession_closed hn]
  | closed =>
    have hn : s.session? = none := by rw [session?, hs]
    rw [map_error (inSession_closed hn _ _ _), inSession_closed hn]
  | opened session =>
    by_cases hw : writing = true → session.writable = true
    · have hx := inSession_opened hs hw x c
      cases h : x (session, c) with
      | ok a r =>
        rw [h] at hx
        rw [map_ok hx, inSession_opened hs hw, map_ok h]
        rfl
      | error e r =>
        rw [h] at hx
        rw [map_error hx, inSession_opened hs hw, map_error h]
        rfl
    · obtain ⟨rfl, hn⟩ : writing = true ∧ session.writable = false := by simpa using hw
      rw [map_error (inSession_notWritable hs hn _ _), inSession_notWritable hs hn]

lemma openFile_again {s : Store} (hs : s.phase ≠ .initial) (writable : Bool) (entropy : Uuid)
    (f : File) : openFile writable entropy (s, f) = .error .alreadyOpened (s, f) := by
  cases h : s.phase with
  | initial => exact absurd h hs
  | opened session => simp only [openFile, h]
  | closed => simp only [openFile, h]

lemma openFile_cases {s : Store} (hs : s.phase = .initial) (writable : Bool) (entropy : Uuid)
    (f : File) :
    (∃ e, openFile writable entropy (s, f) = .error e ({ s with phase := .closed }, f)) ∨
      ∃ c, f.contents? writable = .ok c ∧
        ((∃ e t, Upgrade.setUp writable entropy (.begin writable c) = .error e t ∧
            openFile writable entropy (s, f) =
              .error e ({ s with phase := .closed }, .container false c)) ∨
          ∃ version id t, Upgrade.setUp writable entropy (.begin writable c) = .ok (version, id) t ∧
            openFile writable entropy (s, f) =
              .ok () ({ s with
                phase := .opened (.start writable id s.config.descriptorCacheCapacity), version },
                .container true (t.commit c))) := by
  obtain ⟨e, he⟩ | ⟨c, hc, ha⟩ := File.acquire_cases s.path writable s.config f
  · exact .inl ⟨e, by simp only [openFile, hs, he]⟩
  · refine .inr ⟨c, hc, ?_⟩
    cases h : Upgrade.setUp writable entropy (.begin writable c) with
    | error e t =>
      refine .inl ⟨e, t, rfl, ?_⟩
      simp only [openFile, hs, ha, transact_error (inTransaction_error h)]
    | ok r t =>
      refine .inr ⟨r.1, r.2, t, rfl, ?_⟩
      simp only [openFile, hs, ha, transact_ok (inTransaction_ok h)]

lemma onFile_container (x : Attempt (μ × Container) α) (m : μ) (held : Bool) (c : Container) :
    onFile x (m, .container held c) =
      mapState (fun r => (r.1, .container held r.2)) (x (m, c)) := by
  simp only [onFile]
  cases x (m, c) <;> rfl

lemma onFile_refused {x : Attempt (μ × Container) α} {m : μ} {e : Error}
    (hx : ∀ c, x (m, c) = .error e (m, c)) (f : File) : onFile x (m, f) = .error e (m, f) := by
  cases f <;> simp only [onFile, hx]

end Store

lemma Request.run_eq (r : Request) : r.run = Store.inSession r.isWriting r.serve := by
  cases r <;> exact Store.map_inSession _ _ _

namespace Operation

variable {s : Store} {session : Session} {r : Request}

lemma ask_closed (hs : s.session? = none) (r : Request) (f : File) :
    (ask r).run (s, f) = .error .storeClosed (s, f) := by
  apply Store.onFile_refused
  intro c
  rw [Request.run_eq, Store.inSession_closed hs]

lemma ask_notWritable (hs : s.phase = .opened session) (hw : session.writable = false)
    (hr : r.isWriting = true) (f : File) : (ask r).run (s, f) = .error .notWritable (s, f) := by
  apply Store.onFile_refused
  intro c
  rw [Request.run_eq, hr, Store.inSession_notWritable hs hw]

lemma ask_opened (hs : s.phase = .opened session) (hw : r.isWriting = true → session.writable = true)
    (held : Bool) (c : Container) :
    (ask r).run (s, .container held c) =
      mapState (fun u => ({ s with phase := .opened u.1 }, .container held u.2))
        (r.serve (session, c)) := by
  rw [run, Store.onFile_container, Request.run_eq, Store.inSession_opened hs hw]
  cases r.serve (session, c) <;> rfl

end Operation

end ChunkStore
