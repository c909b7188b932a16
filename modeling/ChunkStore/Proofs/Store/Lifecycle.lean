import ChunkStore.Proofs.Store.Flat

namespace ChunkStore

open Attempt

namespace FlatStore

variable {s : FlatStore} {f : File}

structure Governed (s : FlatStore) (f : File) : Prop where
  next : ∀ op, (Attempt.state (run op (s, f))).1.state =
    s.state.next op (outcome (run op (s, f))).isOk
  again : s.state ≠ .initial → ∀ writable entropy,
    run (.openFile writable entropy) (s, f) = .error .alreadyOpened (s, f)
  closed : s.state.isOpen = false → (∀ r, run (.ask r) (s, f) = .error .storeClosed (s, f)) ∧
    s.descriptorBuilder = .error .storeClosed ∧ ∀ d, s.chunkBuilder d = .error .storeClosed
  readOnly : s.state = .openReadOnly → ∀ r, r.isWriting = true →
    run (.ask r) (s, f) = .error .notWritable (s, f)

lemma state_run (hs : s.Consistent f) (op : Operation) :
    (Attempt.state (run op (s, f))).1.state = s.state.next op (outcome (run op (s, f))).isOk := by
  cases op with
  | openFile writable entropy =>
    by_cases hi : s.state = .initial
    · obtain ⟨e, -, he⟩ | ⟨c, -, ⟨e, t, -, he⟩ | ⟨version, id, t, -, he⟩⟩ :=
        openFile_cases hi writable entropy f
      · rw [run, map_error he, hi]
        rfl
      · rw [run, map_error he, hi, close_opened rfl (StoreState.isOpen_opened writable)]
        rfl
      · rw [run, map_ok he, hi]
        rfl
    · rw [run, map_error (openFile_again hi writable entropy f)]
      cases h : s.state with
      | initial => exact absurd h hi
      | openReadOnly => exact h
      | openReadWrite => exact h
      | closed => exact h
  | close =>
    have hclosed : (s.close f).1.state = .closed := by
      rw [close]
      split <;> rfl
    rw [run, state_ok, hclosed]
    cases s.state <;> rfl
  | ask r =>
    have hnext (ok : Bool) : s.state.next (.ask r) ok = s.state := by cases s.state <;> rfl
    rw [hnext]
    obtain ho | ⟨ho, hr⟩ | ⟨id, c, -, rfl, -, -, hsession⟩ := ask_cases hs r
    · rw [ask_closed ho, state_error]
    · rw [ask_notWritable ho hr, state_error]
    · rw [ask_opened hsession, state_mapState]

lemma Consistent.governed (hs : s.Consistent f) : s.Governed f where
  next := state_run hs
  again hi writable entropy := map_error (openFile_again hi writable entropy f) _
  closed ho := by
    have hid : s.id? = none := by simp [id?, ho]
    refine ⟨fun r => ask_closed ho r f, ?_, fun d => ?_⟩
    · rw [descriptorBuilder, hid]
    · rw [chunkBuilder, hid]
  readOnly ho r hr := ask_notWritable ho hr f

variable {path : String} {config : StoreConfig} {t : Store} {h : History}

lemma Lives.consistent (hs : Lives path config s f h) : s.Consistent f := by
  induction hs with
  | start f => exact consistent_create path config f
  | meanwhile g _ hfree ih => exact ih.meanwhile hfree g
  | call op _ ih => exact consistent_run ih op

lemma not_opening_of_next {state : StoreState} {op : Operation} {ok : Bool}
    (h : state.next op ok = .initial) :
    state = .initial ∧ ∀ writable entropy, op ≠ .openFile writable entropy := by
  cases state with
  | initial =>
    refine ⟨rfl, ?_⟩
    rintro writable entropy rfl
    cases ok <;> cases writable <;> cases h
  | openReadOnly => cases op <;> cases h
  | openReadWrite => cases op <;> cases h
  | closed => cases op <;> cases h

lemma Lives.opensOnce (hs : Lives path config s f h) :
    (s.state = .initial → ∀ e ∈ h, ∀ writable entropy, e.operation ≠ .openFile writable entropy) ∧
      h.OpensOnce := by
  induction hs with
  | start f =>
    refine ⟨nofun, fun {late early writable entropy a} heq => ?_⟩
    simp at heq
  | meanwhile g _ _ ih => exact ih
  | @call s f h op hs ih =>
    obtain ⟨hinitial, honce⟩ := ih
    have hcons := Lives.consistent hs
    refine ⟨fun hnext e he => ?_, ?_⟩
    -- No operation leads back to the initial state, and opening leads out of it.
    · rw [state_run hcons] at hnext
      obtain ⟨hi, hop⟩ := not_opening_of_next hnext
      rcases List.mem_cons.1 he with rfl | he
      · exact hop
      · exact hinitial hi e he
    · intro late early writable entropy a heq
      cases late with
      | nil =>
        obtain ⟨he, rfl⟩ := List.cons.inj heq
        have hop : op = .openFile writable entropy := congrArg Event.operation he
        have hok : outcome (run op (s, f)) = .ok a := congrArg Event.outcome he
        refine hinitial (Decidable.byContradiction fun hi => ?_)
        rw [hop, run, map_error (openFile_again hi writable entropy f)] at hok
        cases hok
      | cons e late => exact honce (List.cons.inj heq).2

lemma exists_lives (ht : Store.Lives path config t f h) :
    ∃ s, s.toStore = t ∧ s.Consistent f ∧ Lives path config s f h := by
  induction ht with
  | start f => exact ⟨create path config, rfl, consistent_create path config f, .start f⟩
  | meanwhile g _ hfree ih =>
    obtain ⟨s, rfl, hs, hlives⟩ := ih
    -- What is not open holds no handle, so that the file is free to change for both.
    have hholds : s.holds = false := by
      rw [hs.holds]
      cases ho : s.state.isOpen with
      | false => rfl
      | true =>
        obtain ⟨id, c, -, -, hp, -⟩ := hs.opened ho
        simp [Store.session?, toStore, hp] at hfree
    exact ⟨s, rfl, hs.meanwhile hholds g, .meanwhile g hlives hholds⟩
  | call op _ ih =>
    obtain ⟨s, rfl, hs, hlives⟩ := ih
    rw [run_toStore hs, state_mapState, outcome_mapState]
    exact ⟨_, rfl, consistent_run hs op, .call op hlives⟩

end FlatStore

namespace Store

variable {path : String} {config : StoreConfig} {t : Store} {f : File} {h : History}

theorem lifecycle (ht : Lives path config t f h) :
    (∃ s : FlatStore, FlatStore.Lives path config s f h ∧ s.Mirrors t f ∧ s.Consistent f ∧ s.Governed f) ∧
      h.OpensOnce := by
  obtain ⟨s, rfl, hs, hlives⟩ := FlatStore.exists_lives ht
  exact ⟨⟨s, hlives, hs.mirrors, hs, hs.governed⟩, hlives.opensOnce.2⟩

def sampleMade : File :=
  let made := Attempt.state ((Operation.openFile true .zero).run (create "chunks" {}, .missing))
  (made.1.close made.2).2

def sampleReader : Store × File :=
  Attempt.state ((Operation.openFile false .zero).run (create "chunks" {}, sampleMade))

theorem lifecycle_sampleReader :
    Lives "chunks" {} sampleReader.1 sampleReader.2 [⟨.openFile false .zero, .ok .done⟩] ∧
      sampleReader.1.phaseName = "OpenReadOnly" ∧
      ∀ value, (Operation.ask (.putMetadata "ID" value)).run sampleReader =
        .error .notWritable sampleReader := by
  have hlives : Lives "chunks" {} sampleReader.1 sampleReader.2
      [⟨.openFile false .zero, .ok .done⟩] := .call (.openFile false .zero) (.start sampleMade)
  have hname : sampleReader.1.phaseName = "OpenReadOnly" := rfl
  obtain ⟨⟨s, -, hm, -, hg⟩, -⟩ := lifecycle hlives
  have hs : s.state = .openReadOnly := by
    have hsname := hm.name.symm.trans hname
    cases h : s.state <;> simp [h, StoreState.name] at hsname ⊢
  refine ⟨hlives, hname, fun value => ?_⟩
  have hrun := hm.run (.ask (.putMetadata "ID" value))
  rw [hg.readOnly hs _ rfl, mapState, hm.store] at hrun
  exact hrun

end Store
end ChunkStore
