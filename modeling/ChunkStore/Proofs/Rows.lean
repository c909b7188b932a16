import ChunkStore.Container.Rows
import Mathlib.Tactic.Lemma

namespace ChunkStore.Rows

variable {κ ν : Type} [LT κ] [DecidableEq κ]

@[simp] lemma find?_empty (k : κ) : (empty : Rows κ ν).find? k = none := rfl

lemma mem_of_find? {r : Rows κ ν} {k : κ} {v : ν} (h : r.find? k = some v) : (k, v) ∈ r.entries := by
  rw [find?] at h
  cases he : r.entries.find? fun e => e.1 = k with
  | none => simp [he] at h
  | some e =>
    obtain rfl : e.2 = v := by simpa [he] using h
    obtain rfl : e.1 = k := by simpa using List.find?_some he
    exact List.mem_of_find?_eq_some he

omit [DecidableEq κ] in
lemma last?_eq_none {r : Rows κ ν} (h : r.last? = none) : r.entries = [] :=
  List.getLast?_eq_none_iff.1 h

omit [DecidableEq κ] in
lemma pairwise_between [DecidableLT κ] (r : Rows κ ν) (first last : κ) :
    (r.between first last).Pairwise fun a b => a.1 < b.1 :=
  r.ascending.filter _

variable [LE κ] [Std.LawfulOrderLT κ]

omit [DecidableEq κ] in
lemma eq_of_mem {r : Rows κ ν} {d e : κ × ν} (hd : d ∈ r.entries) (he : e ∈ r.entries)
    (h : d.1 = e.1) : d = e := by
  obtain ⟨es, hs⟩ := r
  induction hs with
  | nil => cases hd
  | @cons x xs hx hxs ih =>
    rcases List.mem_cons.1 hd with hdx | hdx <;> rcases List.mem_cons.1 he with hex | hex
    · rw [hdx, hex]
    · exact absurd (hdx ▸ h ▸ hx e hex) Std.lt_irrefl
    · exact absurd (hex ▸ h ▸ hx d hdx) Std.lt_irrefl
    · exact ih hdx hex

lemma find?_of_mem {r : Rows κ ν} {k : κ} {v : ν} (h : (k, v) ∈ r.entries) : r.find? k = some v := by
  cases hf : r.find? k with
  | none =>
    rw [find?] at hf
    simp only [Option.map_eq_none_iff, List.find?_eq_none, decide_eq_true_eq] at hf
    exact absurd rfl (hf _ h)
  | some u =>
    obtain ⟨-, rfl⟩ := Prod.mk.inj (eq_of_mem h (mem_of_find? hf) rfl)
    rfl

lemma mem_iff_find? {r : Rows κ ν} {k : κ} {v : ν} : (k, v) ∈ r.entries ↔ r.find? k = some v :=
  ⟨find?_of_mem, mem_of_find?⟩

lemma find?_last? {r : Rows κ ν} {d : κ × ν} (h : r.last? = some d) : r.find? d.1 = some d.2 :=
  find?_of_mem (List.mem_of_getLast? h)

variable [Std.IsLinearOrder κ]

omit [DecidableEq κ] in
lemma le_of_last? {r : Rows κ ν} {d e : κ × ν} (h : r.last? = some d) (he : e ∈ r.entries) :
    e.1 ≤ d.1 := by
  obtain ⟨es, hd⟩ := List.getLast?_eq_some_iff.1 h
  have hs := r.ascending
  rw [hd] at hs he
  rcases List.mem_append.1 he with he | he
  · exact Std.le_of_lt ((List.pairwise_append.1 hs).2.2 e he d (by simp))
  · obtain rfl : e = d := by simpa using he
    exact Std.le_refl _

variable [DecidableLT κ]

lemma find?_insertEntry (k j : κ) (v : ν) (es : List (κ × ν)) :
    ((insertEntry k v es).find? fun e => e.1 = j).map Prod.snd =
      if j = k then some v else (es.find? fun e => e.1 = j).map Prod.snd := by
  induction es with
  | nil =>
    by_cases hj : j = k
    · simp [insertEntry, hj]
    · simp [insertEntry, hj, Ne.symm hj]
  | cons e es ih =>
    rw [insertEntry]
    by_cases hk : k < e.1
    · by_cases hj : j = k
      · simp [hk, hj]
      · simp [hk, hj, Ne.symm hj]
    · by_cases he : e.1 < k
      · rw [if_neg hk, if_pos he]
        by_cases hej : e.1 = j
        · have hj : j ≠ k := fun hj => Std.lt_irrefl (hj ▸ hej ▸ he)
          simp [hej, hj]
        · rw [List.find?_cons_of_neg (by simpa using hej),
            List.find?_cons_of_neg (by simpa using hej), ih]
      · obtain rfl : k = e.1 := by
          rcases Std.lt_trichotomy k e.1 with h | h | h
          · exact absurd h hk
          · exact h
          · exact absurd h he
        rw [if_neg hk, if_neg he]
        by_cases hj : j = e.1
        · simp [hj]
        · simp [hj, Ne.symm hj]

theorem find?_insert (r : Rows κ ν) (k j : κ) (v : ν) :
    (r.insert k v).find? j = if j = k then some v else r.find? j :=
  find?_insertEntry k j v r.entries

@[simp] lemma find?_insert_self (r : Rows κ ν) (k : κ) (v : ν) : (r.insert k v).find? k = some v := by
  rw [find?_insert, if_pos rfl]

lemma find?_insert_of_ne (r : Rows κ ν) {k j : κ} (v : ν) (h : j ≠ k) :
    (r.insert k v).find? j = r.find? j := by
  rw [find?_insert, if_neg h]

omit [DecidableEq κ] in
lemma insertEntry_last {es : List (κ × ν)} {k : κ} (v : ν) (h : ∀ e ∈ es, e.1 < k) :
    insertEntry k v es = es ++ [(k, v)] := by
  induction es with
  | nil => rfl
  | cons e es ih =>
    have he : e.1 < k := h e (by simp)
    rw [insertEntry, if_neg fun hk => Std.lt_irrefl (Std.lt_trans hk he), if_pos he, ih fun d hd => h d (by simp [hd])]
    rfl

omit [DecidableEq κ] in
lemma perm_insertEntry {es : List (κ × ν)} {k : κ} (v : ν) (h : ∀ e ∈ es, e.1 ≠ k) :
    (insertEntry k v es).Perm ((k, v) :: es) := by
  induction es with
  | nil => exact .refl _
  | cons e es ih =>
    rw [insertEntry]
    split
    · exact .refl _
    · split
      · exact ((ih fun d hd => h d (by simp [hd])).cons e).trans (.swap _ _ _)
      next hk he =>
        rcases Std.lt_trichotomy e.1 k with hlt | heq | hlt
        · exact absurd hlt he
        · exact absurd heq (h e (by simp))
        · exact absurd hlt hk

lemma perm_insert {r : Rows κ ν} {k : κ} (v : ν) (h : r.find? k = none) :
    (r.insert k v).entries.Perm ((k, v) :: r.entries) := by
  apply perm_insertEntry
  rintro ⟨j, u⟩ he rfl
  simp [find?_of_mem he] at h

omit [DecidableEq κ] in
lemma size_insert_le (r : Rows κ ν) (k : κ) (v : ν) : (r.insert k v).size ≤ r.size + 1 := by
  change (insertEntry k v r.entries).length ≤ r.entries.length + 1
  generalize r.entries = es
  induction es with
  | nil => exact Nat.le_refl _
  | cons e es ih =>
    rw [insertEntry]
    split
    · simp
    · split
      · simpa using ih
      · simp

lemma mem_between {r : Rows κ ν} {first last k : κ} {v : ν} :
    (k, v) ∈ r.between first last ↔ (first ≤ k ∧ k ≤ last) ∧ r.find? k = some v := by
  simp [between, mem_iff_find?, Std.not_lt, and_comm]

end ChunkStore.Rows
