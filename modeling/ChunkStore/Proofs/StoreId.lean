import ChunkStore.StoreId
import Mathlib.Tactic.Lemma

namespace ChunkStore

lemma Nibble.toChar_ne_hyphen : ∀ n : Nibble, n.toChar ≠ '-' := by decide

lemma Nibble.utf8Size_toChar : ∀ n : Nibble, n.toChar.utf8Size = 1 := by decide

lemma Nibble.mapM_toChar (digits : List Nibble) :
    (digits.map toChar).mapM ofChar? = some digits := by
  induction digits with
  | nil => rfl
  | cons n digits ih => simp [ih]

namespace Uuid

lemma ofPlain?_plain (u : Uuid) : ofPlain? u.plain = some u := by
  rw [ofPlain?, plain, Nibble.mapM_toChar]
  exact dif_pos u.length_digits

lemma length_plain (u : Uuid) : u.plain.length = 32 := by
  rw [plain, List.length_map, u.length_digits]

lemma byteLength_eq_length {cs : List Char} (h : ∀ c ∈ cs, c.utf8Size = 1) :
    byteLength cs = cs.length := by
  induction cs with
  | nil => rfl
  | cons c cs ih =>
    rw [byteLength, h c (by simp), ih fun d hd => h d (by simp [hd]), List.length_cons, Nat.add_comm]

lemma mem_hyphenate {c : Char} {cs : List Char} (h : c ∈ hyphenate cs) : c = '-' ∨ c ∈ cs := by
  simp only [hyphenate, List.mem_append, List.mem_cons] at h
  grind [List.mem_of_mem_take, List.mem_of_mem_drop]

lemma take_append_drop_add (cs : List Char) (m n : Nat) :
    (cs.drop m).take n ++ cs.drop (m + n) = cs.drop m := by
  rw [← List.drop_drop, List.take_append_drop]

lemma filter_hyphenate {cs : List Char} (h : ∀ c ∈ cs, c ≠ '-') :
    (hyphenate cs).filter (· ≠ '-') = cs := by
  have hk : ∀ {ds : List Char}, ds.Sublist cs → ds.filter (· ≠ '-') = ds := fun hs =>
    List.filter_eq_self.2 fun c hc => by simpa using h c (hs.subset hc)
  have ht : ∀ m n, ((cs.drop m).take n).filter (· ≠ '-') = (cs.drop m).take n := fun m n =>
    hk ((List.take_sublist n _).trans (List.drop_sublist m cs))
  have hd : ∀ m, (cs.drop m).filter (· ≠ '-') = cs.drop m := fun m => hk (List.drop_sublist m cs)
  simp only [hyphenate, List.filter_append, List.filter_cons_of_neg, ne_eq, not_true, decide_false,
    Bool.false_eq_true, not_false_eq_true, hk (List.take_sublist 8 cs), ht, hd, List.append_assoc,
    take_append_drop_add cs 16 4, take_append_drop_add cs 12 4, take_append_drop_add cs 8 4,
    List.take_append_drop]

lemma length_hyphenate {cs : List Char} (h : cs.length = 32) : (hyphenate cs).length = 36 := by
  simp only [hyphenate, List.length_append, List.length_cons, List.length_take, List.length_drop]
  omega

lemma getElem?_hyphenate {cs : List Char} (h : cs.length = 32) {i : Nat}
    (hi : i ∈ [8, 13, 18, 23]) : (hyphenate cs)[i]? = some '-' := by
  simp only [List.mem_cons, List.not_mem_nil, or_false] at hi
  obtain rfl | rfl | rfl | rfl := hi <;> simp [hyphenate, h]

lemma ofHyphenated?_hyphenated (u : Uuid) : ofHyphenated? u.hyphenated = some u := by
  have hno : ∀ c ∈ u.plain, c ≠ '-' := fun c hc => by
    obtain ⟨n, -, rfl⟩ := List.mem_map.1 hc
    exact n.toChar_ne_hyphen
  rw [ofHyphenated?, hyphenated, if_pos, filter_hyphenate hno, ofPlain?_plain]
  refine ⟨length_hyphenate u.length_plain, List.all_eq_true.2 fun i hi => ?_⟩
  exact decide_eq_true (getElem?_hyphenate u.length_plain hi)

lemma byteLength_hyphenated (u : Uuid) : byteLength u.hyphenated = 36 := by
  rw [hyphenated, byteLength_eq_length, length_hyphenate u.length_plain]
  intro c hc
  obtain rfl | hc := mem_hyphenate hc
  · decide
  · obtain ⟨n, -, rfl⟩ := List.mem_map.1 hc
    exact n.utf8Size_toChar

theorem read_hyphenated (u : Uuid) : read u.hyphenated = .ok u := by
  simp only [read, byteLength_hyphenated, readHyphenated, ofHyphenated?_hyphenated]

end Uuid

namespace StoreId

theorem read_text {id : StoreId} (h : id.uuid.version = 4) : read id.text = .ok id := by
  simp only [read, text, String.toList_ofList, Uuid.read_hyphenated]
  exact if_pos h

lemma read_fresh (entropy : Uuid) : read (fresh entropy).text = .ok (fresh entropy) :=
  read_text entropy.version_asRandom

end StoreId
end ChunkStore
