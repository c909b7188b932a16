import ChunkStore.Proofs.Handle
import ChunkStore.Proofs.Transaction.Upgrade

/-!
Descriptors are numbered 1, 2, 3 and so on, in all that a transaction can see. A writer that is not
committed gives its numbers back, and the numbers that were committed stay what they are.
-/

namespace ChunkStore

open Attempt Transaction

namespace Container

structure Consecutive (c : Container) : Prop where
  ids : (c.descriptors.rows.entries.map fun e => e.1.toNat) =
    List.range' 1 c.descriptors.rows.size
  inverse : c.Inverse

def Fills (c d : Container) : Prop := c.Consecutive → d.Consecutive ∧ c.Extends d

instance : Std.Refl Fills := ⟨fun _ hc => ⟨hc, extends_of_ids rfl⟩⟩

instance : Trans Fills Fills Fills :=
  ⟨fun h k hc => by
    obtain ⟨hc, hgrow⟩ := h hc
    obtain ⟨hc, hmore⟩ := k hc
    exact ⟨hc, hgrow.trans hmore⟩⟩

variable {c d : Container}

lemma fills_of_ids (h : c.ids = d.ids) : c.Fills d := fun hc => by
  refine ⟨⟨?_, hc.inverse.congr h⟩, extends_of_ids h⟩
  rw [← descriptors_congr h]
  exact hc.ids

lemma consecutive_of_empty (hd : c.descriptors.rows = .empty) (hc : c.contents.rows = .empty) :
    c.Consecutive where
  ids := by
    rw [hd]
    rfl
  inverse id bytes := by simp [hd, hc]

namespace Consecutive

variable (hc : c.Consecutive)

include hc

lemma bounds {e : UInt64 × Bytes} (he : e ∈ c.descriptors.rows.entries) :
    1 ≤ e.1.toNat ∧ e.1.toNat ≤ c.descriptors.rows.size := by
  have hmem := List.mem_map_of_mem (f := fun e : UInt64 × Bytes => e.1.toNat) he
  rw [hc.ids, List.mem_range'_1] at hmem
  omega

lemma toNat_last {e : UInt64 × Bytes} (he : c.descriptors.rows.last? = some e) :
    e.1.toNat = c.descriptors.rows.size := by
  have hlast := congrArg List.getLast? hc.ids
  rw [Rows.last?] at he
  rw [List.getLast?_map, he, List.getLast?_range'] at hlast
  split at hlast
  · cases hlast
  · have hn : e.1.toNat = 1 + c.descriptors.rows.size - 1 := by simpa using hlast
    omega

lemma hasNumbers (hlt : c.descriptors.rows.size + 1 < UInt64.size) : c.HasNumbers := fun e he => by
  rw [hc.toNat_last he]
  exact hlt

variable (hn : c.HasNumbers)

include hn

lemma toNat_nextId : (nextId c.descriptors.rows).toNat = c.descriptors.rows.size + 1 := by
  rw [nextId]
  cases hl : c.descriptors.rows.last? with
  | none =>
    rw [Rows.size, Rows.last?_eq_none hl]
    rfl
  | some e =>
    dsimp only
    rw [toNat_add_one (hn e hl), hc.toNat_last hl]

lemma entries_insert (bytes : Bytes) :
    (c.descriptors.rows.insert (nextId c.descriptors.rows) bytes).entries =
      c.descriptors.rows.entries ++ [(nextId c.descriptors.rows, bytes)] := by
  apply Rows.insertEntry_last
  intro e he
  rw [UInt64.lt_iff_toNat_lt, hc.toNat_nextId hn]
  exact Nat.lt_succ_of_le (hc.bounds he).2

end Consecutive

lemma fills_of_adds {bytes : Bytes} (h : Adds bytes c d) : c.Fills d := fun hc => by
  have hn := h.hasNumbers
  refine ⟨⟨?_, h.inverse hc.inverse⟩, h.grows⟩
  rw [h.rows, Rows.size, hc.entries_insert hn, List.length_append, List.map_append, hc.ids,
    List.length_singleton, List.range'_1_concat, List.map_singleton, hc.toNat_nextId hn, Nat.add_comm]
  rfl

end Container

namespace Transaction

lemma fills_insertDescriptor (bytes : Bytes) :
    Respects (InvImage Container.Fills view) (insertDescriptor bytes) :=
  respects_insertDescriptor (fun hu => Container.fills_of_ids hu.ids) Container.fills_of_adds bytes

lemma fills_runAll (calls : List Call) (t : Transaction) : t.view.Fills (runAll calls t).view :=
  respects_runAll (R := InvImage Container.Fills view)
    (respects_call Container.fills_of_ids fills_insertDescriptor) calls t

structure InsertsOnce (t : Transaction) (bytes : Bytes) : Prop where
  known : ∀ {id}, t.view.descriptors.rows.find? id = some bytes → t.writing = true →
    insertDescriptor bytes t = .ok id t
  fresh : (∀ id, t.view.descriptors.rows.find? id ≠ some bytes) →
    ∀ {id u}, insertDescriptor bytes t = .ok id u →
      id.toNat = t.view.descriptors.rows.size + 1 ∧
        u.view.descriptors.rows.entries = t.view.descriptors.rows.entries ++ [(id, bytes)] ∧
        u.view.contents.rows.entries.Perm ((bytes, id) :: t.view.contents.rows.entries) ∧
        u.view.metadata.read = t.view.metadata.read ∧ u.view.chunks.read = t.view.chunks.read
  failed : ∀ {e u}, insertDescriptor bytes t = .error e u → u.view.reads = t.view.reads
  succeeds : t.writing = true → t.view.descriptors.read = .ok t.view.descriptors.rows →
    t.view.contents.read = .ok t.view.contents.rows → ∃ id u, insertDescriptor bytes t = .ok id u

lemma insertDescriptor_succeeds {t : Transaction} (bytes : Bytes) (hn : t.view.HasNumbers)
    (hw : t.writing = true) (hd : t.view.descriptors.read = .ok t.view.descriptors.rows)
    (hc : t.view.contents.read = .ok t.view.contents.rows) :
    ∃ id u, insertDescriptor bytes t = .ok id u := by
  have hc' : (Container.Slot.contents.get t.view).read = .ok t.view.contents.rows := hc
  obtain ⟨u, hu⟩ := openTable_ok hc' .insertDescriptor
  cases hf : t.view.contents.rows.find? bytes with
  | some id => exact ⟨id, t, insertDescriptor_of_find? hw hf⟩
  | none =>
    have hids : t.view.ids = u.view.ids := (opening_ids.contents _).of_ok hu
    have hd' : (Container.Slot.descriptors.get u.view).read = .ok t.view.descriptors.rows :=
      (congrArg Prod.fst hids).symm.trans hd
    obtain ⟨v, hv⟩ := openTable_ok hd' .insertDescriptor
    rw [insertDescriptor, bind_ok (requireWriter_run hw), bind_ok hu]
    simp only [hf]
    rw [addDescriptor, bind_ok hv, if_neg (hasNumbers_iff.1 hn)]
    exact ⟨_, _, rfl⟩

theorem insertsOnce {t : Transaction} (ht : t.view.Consecutive)
    (hlt : t.view.descriptors.rows.size + 1 < UInt64.size) (bytes : Bytes) :
    t.InsertsOnce bytes where
  known hid hw := insertDescriptor_of_find? hw ((ht.inverse _ _).1 hid)
  fresh hnew id u h := by
    have hmeta : t.view.metadata.read = u.view.metadata.read :=
      (metadata_insertDescriptor bytes).of_ok h
    obtain ⟨e, u', h', -⟩ | ⟨id', u', h', hb, -⟩ | ⟨u', h', hu⟩ := insertDescriptor_cases bytes t
    · simp [h] at h'
    · exact absurd ((ht.inverse _ _).2 hb) (hnew id')
    · obtain ⟨rfl, rfl⟩ : id = nextId t.view.descriptors.rows ∧ u = u' := by simpa [h] using h'
      rw [hu.rows, hu.contentRows]
      exact ⟨ht.toNat_nextId hu.hasNumbers, ht.entries_insert hu.hasNumbers bytes,
        Rows.perm_insert _ hu.fresh, hmeta.symm, hu.chunks⟩
  failed {e u} h := by
    have hmeta : t.view.metadata.read = u.view.metadata.read :=
      (metadata_insertDescriptor bytes).of_error h
    obtain ⟨e', u', h', hu⟩ | ⟨id, u', h', -⟩ | ⟨u', h', -⟩ := insertDescriptor_cases bytes t
    · obtain ⟨rfl, rfl⟩ : e = e' ∧ u = u' := by simpa [h] using h'
      exact Prod.ext hmeta.symm hu.symm
    · simp [h] at h'
    · simp [h] at h'
  succeeds := insertDescriptor_succeeds bytes (ht.hasNumbers hlt)

end Transaction

namespace Container

lemma amendAll_append (c : Container) (log log' : List (List Call)) :
    c.amendAll (log ++ log') = (c.amendAll log).amendAll log' :=
  List.foldl_append

lemma fills_amendAll (c : Container) (log : List (List Call)) : c.Fills (c.amendAll log) := by
  induction log generalizing c with
  | nil => exact Std.Refl.refl c
  | cons calls log ih =>
    have hstep := fills_runAll calls (.begin true c)
    rw [← amend_eq] at hstep
    exact Trans.trans (r := Fills) hstep (ih _)

end Container

namespace Handle

/-- What is committed, or what a transaction sees of it and of its own changes, and the calls of the
writers that were committed before. -/
inductive Sees (h : Handle) : List (List Call) → Container → Prop where
  | committed : h.Sees h.log h.contents
  | live {l : Live} : l ∈ h.live → h.Sees l.base l.transaction.view

lemma Accounted.fills {start c : Container} {h : Handle} {log : List (List Call)}
    (hs : h.Accounted start) (hc : h.Sees log c) : (start.amendAll log).Fills c := by
  cases hc with
  | committed =>
    rw [hs.contents]
    exact Std.Refl.refl _
  | @live l hl =>
    rw [(hs.live l hl).transaction]
    exact fills_runAll l.calls (.begin _ _)

theorem descriptors_consecutive {writable : Bool} {start : Container} {h : Handle}
    (hr : Run writable start h) (hd : start.descriptors.rows = .empty)
    (hc : start.contents.rows = .empty) :
    h.contents = start.amendAll h.log ∧
      (∀ log c, h.Sees log c →
        c.Consecutive ∧ ∀ earlier, earlier <+: log → (start.amendAll earlier).Extends c) ∧
      ∀ l ∈ h.live, l.transaction.view.descriptors.rows.size + 1 < UInt64.size →
        l.transaction.view.HasNumbers ∧ ∀ bytes, l.transaction.InsertsOnce bytes := by
  have hs := hr.accounted
  have hstart := Container.consecutive_of_empty hd hc
  have hsees {log : List (List Call)} {c : Container} (hc' : h.Sees log c) :
      c.Consecutive ∧ ∀ earlier, earlier <+: log → (start.amendAll earlier).Extends c := by
    refine ⟨?_, fun earlier hprefix => ?_⟩
    · exact (hs.fills hc' (start.fills_amendAll log hstart).1).1
    · obtain ⟨later, rfl⟩ := hprefix
      have hlater := (start.amendAll earlier).fills_amendAll later
      rw [← Container.amendAll_append] at hlater
      have hgrow := Trans.trans (r := Container.Fills) hlater (hs.fills hc')
      exact (hgrow (start.fills_amendAll earlier hstart).1).2
  refine ⟨hs.contents, fun log c hc' => hsees hc', fun l hl hlt => ?_⟩
  have ht := (hsees (.live hl)).1
  exact ⟨ht.hasNumbers hlt, insertsOnce ht hlt⟩

def sampleNumbered : List Call := [.insertDescriptor [8], .insertDescriptor [9], .insertDescriptor [8]]

def sampleRenumbered : Handle where
  contents := Container.empty.amend sampleNumbered
  log := [sampleNumbered]
  live := [⟨runAll [.insertDescriptor [6]] (.begin true (Container.empty.amend sampleNumbered)),
    [sampleNumbered], [.insertDescriptor [6]]⟩]

lemma run_sampleRenumbered : Run true .empty sampleRenumbered := by
  have h₀ : Run true .empty ⟨.empty, [], []⟩ := .start
  have h₁ := h₀.begin true (fun _ ⟨_, hl, _⟩ => List.not_mem_nil hl) rfl
  have h₂ := ((h₁.call 0 (.insertDescriptor [8]) rfl).call 0 (.insertDescriptor [9]) rfl).call 0
    (.insertDescriptor [8]) rfl
  have h₃ := (h₂.commit 0 rfl).begin true (fun _ ⟨_, hl, _⟩ => List.not_mem_nil hl) rfl
  have h₄ := (h₃.call 0 (.insertDescriptor [7]) rfl).discard 0 rfl
  have h₅ := h₄.begin true (fun _ ⟨_, hl, _⟩ => List.not_mem_nil hl) rfl
  exact h₅.call 0 (.insertDescriptor [6]) rfl

theorem descriptors_consecutive_sample :
    Container.empty.descriptors.rows = .empty ∧ Container.empty.contents.rows = .empty ∧
      Run true .empty sampleRenumbered ∧ ∃ l ∈ sampleRenumbered.live,
        l.transaction.view.Consecutive ∧
          l.transaction.view.descriptors.rows.entries = [(1, [8]), (2, [9]), (3, [6])] ∧
          insertDescriptor [9] l.transaction = .ok 2 l.transaction := by
  obtain ⟨-, hsees, hinserts⟩ := descriptors_consecutive run_sampleRenumbered rfl rfl
  refine ⟨rfl, rfl, run_sampleRenumbered, _, List.mem_singleton_self _, ?_, by decide, ?_⟩
  · exact (hsees _ _ (.live (List.mem_singleton_self _))).1
  · have hl := hinserts _ (List.mem_singleton_self _) (by decide)
    exact (hl.2 [9]).known (by decide) rfl

end Handle
end ChunkStore
