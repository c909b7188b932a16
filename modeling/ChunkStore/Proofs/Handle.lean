import ChunkStore.Proofs.Transaction.Agreement
import Mathlib.Data.List.Perm.Basic

/-!
Transactions on a handle are apart from each other: what one finds is what the committed writers
before it have made of the container, one after the other.
-/

namespace ChunkStore

open Attempt Transaction

namespace Container

lemma amend_eq (c : Container) (calls : List Call) :
    c.amend calls = (runAll calls (.begin true c)).view := by
  have hw : true = (runAll calls (.begin true c)).writing := mode_runAll calls (.begin true c)
  rw [amend, Transaction.commit, if_pos hw.symm]

lemma amendAll_concat (c : Container) (log : List (List Call)) (calls : List Call) :
    c.amendAll (log ++ [calls]) = (c.amendAll log).amend calls := by
  simp [amendAll]

end Container

namespace Transaction

lemma Twin.trans {t u v : Transaction} (h : Twin t u) (k : Twin u v) : Twin t v :=
  ⟨Eq.trans h.1 k.1, Eq.trans h.2 k.2⟩

lemma twin_begin (writing : Bool) {c d : Container} (h : c.reads = d.reads) :
    Twin (.begin writing c) (.begin writing d) :=
  ⟨rfl, h⟩

lemma twin_select {call : Call} (h : call.isWriting = false) (t : Transaction) :
    Twin t (state (call.run t)) :=
  ⟨mode_call call t, (opening_makes.select h t).reads⟩

lemma twin_filter (calls : List Call) (t : Transaction) :
    Twin (runAll calls t) (runAll (calls.filter Call.isWriting) t) := by
  induction calls generalizing t with
  | nil => exact ⟨rfl, rfl⟩
  | cons call calls ih =>
    cases h : call.isWriting with
    | true =>
      rw [List.filter_cons_of_pos h]
      exact ih _
    | false =>
      rw [List.filter_cons_of_neg (by simp [h])]
      have hcalls := twin_runAll (calls.filter Call.isWriting) (twin_select h t)
      exact (ih _).trans ⟨hcalls.1.symm, hcalls.2.symm⟩

end Transaction

lemma Container.reads_amendAll (log : List (List Call)) {c d : Container} (h : c.reads = d.reads) :
    (c.amendAll log).reads = (d.amendAll (log.map fun calls => calls.filter Call.isWriting)).reads := by
  induction log generalizing c d with
  | nil => exact h
  | cons calls log ih =>
    apply ih
    rw [amend_eq, amend_eq]
    exact ((twin_runAll calls (twin_begin true h)).trans (twin_filter calls _)).2

structure Live.Accounted (start : Container) (log : List (List Call)) (l : Live) : Prop where
  base : l.base <+: log
  latest : l.transaction.writing = true → l.base = log
  transaction :
    l.transaction = runAll l.calls (.begin l.transaction.writing (start.amendAll l.base))

lemma Live.Accounted.call {start : Container} {log : List (List Call)} {l : Live}
    (h : l.Accounted start log) (call : Call) : (l.call call).Accounted start log := by
  have hmode : l.transaction.writing = (l.call call).transaction.writing := mode_call call _
  refine ⟨h.base, fun hw => h.latest (hmode.trans hw), ?_⟩
  rw [← hmode]
  refine Eq.trans ?_ (runAll_concat l.calls call _).symm
  exact congrArg (fun t => state (call.run t)) h.transaction

lemma Live.Accounted.reader {start : Container} {log : List (List Call)} {l : Live}
    (h : l.Accounted start log) (hr : l.transaction.writing = false) (calls : List Call) :
    l.Accounted start (log ++ [calls]) :=
  ⟨h.base.trans (List.prefix_append _ _), fun hw => by simp [hr] at hw, h.transaction⟩

namespace Handle

def Apart (l m : Live) : Prop := l.transaction.writing = true → m.transaction.writing = false

lemma Apart.symm {l m : Live} (h : Apart l m) : Apart m l := fun hm => by
  cases hl : l.transaction.writing with
  | false => rfl
  | true => simp [h hl] at hm

structure Accounted (start : Container) (h : Handle) : Prop where
  contents : h.contents = start.amendAll h.log
  live : ∀ l ∈ h.live, l.Accounted start h.log
  apart : h.live.Pairwise Apart

lemma perm_eraseIdx {h : Handle} {i : Nat} {l : Live} (hl : h.live[i]? = some l) :
    h.live.Perm (l :: h.live.eraseIdx i) := by
  obtain ⟨hi, rfl⟩ := List.getElem?_eq_some_iff.1 hl
  exact (List.getElem_cons_eraseIdx_perm hi).symm

namespace Accounted

variable {start : Container} {h : Handle} {l : Live} {i : Nat}

lemma begin (hs : h.Accounted start) {writable writing : Bool} {t : Transaction}
    (hw : writing = true → ¬ h.hasWriter)
    (ht : Transaction.begin? writable writing h.contents = .ok t) :
    (h.beginWith t).Accounted start := by
  obtain rfl : Transaction.begin writing h.contents = t := by
    rw [Transaction.begin?] at ht
    split at ht
    · cases ht
    · exact Except.ok.inj ht
  refine ⟨hs.contents, ?_, ?_⟩
  · intro l hl
    rcases List.mem_append.1 hl with hl | hl
    · exact hs.live l hl
    · obtain rfl := List.mem_singleton.1 hl
      refine ⟨List.prefix_rfl, fun _ => rfl, ?_⟩
      rw [← hs.contents]
      rfl
  · refine List.pairwise_append.2 ⟨hs.apart, List.pairwise_singleton _ _, fun m hm l hl hmw => ?_⟩
    obtain rfl := List.mem_singleton.1 hl
    cases writing with
    | false => rfl
    | true => exact absurd ⟨m, hm, hmw⟩ (hw rfl)

lemma call (hs : h.Accounted start) (hl : h.live[i]? = some l) (call : Call) :
    (h.call i l call).Accounted start := by
  have hperm := perm_eraseIdx hl
  obtain ⟨hi, -⟩ := List.getElem?_eq_some_iff.1 hl
  have hset := List.set_perm_cons_eraseIdx hi (l.call call)
  obtain ⟨hlx, hrest⟩ := List.pairwise_cons.1 (hperm.pairwise hs.apart Apart.symm)
  refine ⟨hs.contents, fun m hm => ?_, ?_⟩
  · rcases List.mem_cons.1 (hset.mem_iff.1 hm) with rfl | hm
    · exact (hs.live l (List.mem_of_getElem? hl)).call call
    · exact hs.live m (List.mem_of_mem_eraseIdx hm)
  · apply hset.symm.pairwise _ Apart.symm
    have hmode : l.transaction.writing = (l.call call).transaction.writing := mode_call call _
    exact List.pairwise_cons.2 ⟨fun m hm hw => hlx m hm (hmode.trans hw), hrest⟩

lemma discard (hs : h.Accounted start) : (h.discard i).Accounted start :=
  ⟨hs.contents, fun m hm => hs.live m (List.mem_of_mem_eraseIdx hm),
    hs.apart.sublist (List.eraseIdx_sublist _ _)⟩

lemma commit (hs : h.Accounted start) (hl : h.live[i]? = some l) :
    (h.commit i l).Accounted start := by
  have hacc := hs.live l (List.mem_of_getElem? hl)
  obtain ⟨hlx, hrest⟩ := List.pairwise_cons.1 ((perm_eraseIdx hl).pairwise hs.apart Apart.symm)
  cases hw : l.transaction.writing with
  | false =>
    have hc : h.commit i l = h.discard i := by
      simp [Handle.commit, Handle.discard, Transaction.commit, hw]
    rw [hc]
    exact hs.discard
  | true =>
    refine ⟨?_, fun m hm => ?_, hrest⟩
    · have ht := hacc.transaction
      rw [hw, hacc.latest hw] at ht
      simp only [Handle.commit, if_pos hw, Container.amendAll_concat, Container.amend_eq,
        Transaction.commit]
      exact congrArg Transaction.view ht
    · simp only [Handle.commit, if_pos hw]
      exact (hs.live m (List.mem_of_mem_eraseIdx hm)).reader (hlx m hm hw) _

end Accounted

lemma Run.accounted {writable : Bool} {start : Container} {h : Handle} (hr : Run writable start h) :
    h.Accounted start := by
  induction hr with
  | start => exact ⟨rfl, fun _ hl => (List.not_mem_nil hl).elim, .nil⟩
  | begin writing _ hw ht ih => exact ih.begin hw ht
  | call i call _ hl ih => exact ih.call hl call
  | commit i _ hl ih => exact ih.commit hl
  | discard i _ _ ih => exact ih.discard

theorem only_commits_count :
    (∀ (call : Call) (c : Container), call.isWriting = false →
      outcome (call.run (.begin false c)) = outcome (call.run (.begin true c))) ∧
    (∀ (call : Call) (t : Transaction), call.isWriting = false →
      t.view.Made (state (call.run t)).view) ∧
    (∀ t : Transaction, state (selectVersion t) = t) ∧
    (∀ (c : Container) (log : List (List Call)) (writing : Bool) (calls : List Call) (call : Call),
      outcome (call.run (runAll calls (.begin writing (c.amendAll log)))) =
        outcome (call.run (runAll calls (.begin writing
          (c.amendAll (log.map fun calls => calls.filter Call.isWriting)))))) ∧
    (∀ (call : Call) (t : Transaction), call.isWriting = true → t.writing = false →
      call.run t = .error .notWritable t) ∧
    ∀ (writable : Bool) (start : Container) (h : Handle), Run writable start h →
      h.contents = start.amendAll h.log ∧ ∀ l ∈ h.live, l.base <+: h.log ∧
        l.transaction =
          runAll l.calls (.begin l.transaction.writing (start.amendAll l.base)) := by
  refine ⟨?_, ?_, state_selectVersion, ?_, ?_, ?_⟩
  · intro call c h
    exact (congruent_select h (.begin false c) (.begin true c) rfl).1
  · intro call t h
    exact opening_makes.select h t
  · intro c log writing calls call
    have hreads := Container.reads_amendAll log (Eq.refl c.reads)
    exact (twin_call call _ _ (twin_runAll calls (twin_begin writing hreads))).1
  · intro call t hw ht
    exact run_reader hw ht
  · intro writable start h hr
    have hs := hr.accounted
    exact ⟨hs.contents, fun l hl => ⟨(hs.live l hl).base, (hs.live l hl).transaction⟩⟩

def sampleCalls : List Call := [.selectChunk 5, .insertMeta "site" "north", .insertChunk 5 ⟨1, [7]⟩]

def sampleHandle : Handle where
  contents := Container.empty.amend sampleCalls
  log := [sampleCalls]
  live := [⟨.begin false (Container.empty.amend sampleCalls), [sampleCalls], []⟩]

lemma run_sample : Run true .empty sampleHandle := by
  have h₀ : Run true .empty ⟨.empty, [], []⟩ := .start
  have h₁ := h₀.begin true (fun _ ⟨_, hl, _⟩ => List.not_mem_nil hl) rfl
  have h₂ := ((h₁.call 0 (.selectChunk 5) rfl).call 0 (.insertMeta "site" "north") rfl).call 0
    (.insertChunk 5 ⟨1, [7]⟩) rfl
  have h₃ := (h₂.commit 0 rfl).begin true (fun _ ⟨_, hl, _⟩ => List.not_mem_nil hl) rfl
  have h₄ := (h₃.call 0 (.insertMeta "site" "south") rfl).discard 0 rfl
  exact h₄.begin false (fun h => nomatch h) rfl

theorem only_commits_count_sample :
    outcome (Call.selectMaxTimestamp.run (.begin false Container.empty)) =
      outcome (Call.selectMaxTimestamp.run (.begin true Container.empty)) ∧
    (Call.insertMeta "site" "south").run (.begin false Container.empty) =
      .error .notWritable (.begin false Container.empty) ∧
    sampleHandle.contents = Container.empty.amendAll [sampleCalls] ∧
    outcome ((Call.selectMeta "site").run (.begin false sampleHandle.contents)) =
      .ok (.text (some "north")) := by
  obtain ⟨hselect, -, -, -, hreader, hrun⟩ := only_commits_count
  refine ⟨hselect _ _ rfl, hreader _ _ rfl rfl, (hrun true .empty _ run_sample).1, ?_⟩
  decide

end Handle
end ChunkStore
