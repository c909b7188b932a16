/-!
Rows in strictly ascending order of their keys: at most one row for a key.
-/

namespace ChunkStore

structure Rows (κ ν : Type) [LT κ] where
  entries : List (κ × ν)
  ascending : entries.Pairwise fun a b => a.1 < b.1

namespace Rows

variable {κ ν : Type} [LT κ]

@[ext] theorem ext {r s : Rows κ ν} (h : r.entries = s.entries) : r = s := by
  cases r; cases s; simpa using h

instance [DecidableEq κ] [DecidableEq ν] : DecidableEq (Rows κ ν) := fun r s =>
  decidable_of_iff (r.entries = s.entries) ⟨ext, congrArg entries⟩

def empty : Rows κ ν := ⟨[], .nil⟩

def size (r : Rows κ ν) : Nat := r.entries.length

def find? [DecidableEq κ] (r : Rows κ ν) (k : κ) : Option ν := (r.entries.find? fun e => e.1 = k).map Prod.snd

def last? (r : Rows κ ν) : Option (κ × ν) := r.entries.getLast?

variable [DecidableLT κ]

def between (r : Rows κ ν) (first last : κ) : List (κ × ν) :=
  r.entries.filter fun e => !(e.1 < first) && !(last < e.1)

def insertEntry (k : κ) (v : ν) : List (κ × ν) → List (κ × ν)
  | [] => [(k, v)]
  | e :: es =>
    if k < e.1 then (k, v) :: e :: es
    else if e.1 < k then e :: insertEntry k v es
    else (k, v) :: es

theorem mem_insertEntry {k : κ} {v : ν} {e : κ × ν} :
    ∀ {es : List (κ × ν)}, e ∈ insertEntry k v es → e = (k, v) ∨ e ∈ es
  | [], h => .inl (by simpa [insertEntry] using h)
  | d :: es, h => by
    rw [insertEntry] at h
    split at h
    · simpa using h
    · split at h
      · rcases List.mem_cons.1 h with h | h
        · exact .inr (by simp [h])
        · rcases mem_insertEntry h with h | h
          · exact .inl h
          · exact .inr (by simp [h])
      · rcases List.mem_cons.1 h with h | h
        · exact .inl h
        · exact .inr (by simp [h])

variable [LE κ] [Std.IsLinearOrder κ] [Std.LawfulOrderLT κ]

theorem pairwise_insertEntry (k : κ) (v : ν) : ∀ {es : List (κ × ν)},
    es.Pairwise (fun a b => a.1 < b.1) → (insertEntry k v es).Pairwise fun a b => a.1 < b.1
  | [], _ => List.pairwise_singleton _ _
  | d :: es, h => by
    obtain ⟨hd, hes⟩ := List.pairwise_cons.1 h
    rw [insertEntry]
    split
    next hk =>
      refine List.pairwise_cons.2 ⟨fun e he => ?_, h⟩
      rcases List.mem_cons.1 he with rfl | he
      · exact hk
      · exact Std.lt_trans hk (hd e he)
    next hk =>
      split
      next hd' =>
        refine List.pairwise_cons.2 ⟨fun e he => ?_, pairwise_insertEntry k v hes⟩
        rcases mem_insertEntry he with rfl | he
        · exact hd'
        · exact hd e he
      next hd' =>
        obtain rfl : k = d.1 := by
          rcases Std.lt_trichotomy k d.1 with h | h | h
          · exact absurd h hk
          · exact h
          · exact absurd h hd'
        exact List.pairwise_cons.2 ⟨hd, hes⟩

def insert (r : Rows κ ν) (k : κ) (v : ν) : Rows κ ν :=
  ⟨insertEntry k v r.entries, pairwise_insertEntry k v r.ascending⟩

end Rows
end ChunkStore
