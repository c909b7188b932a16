import ChunkStore.Proofs.StoreId
import ChunkStore.Upgrade
import Mathlib.Data.List.Forall2

/-!
The spellings of an identifier: its digits in either case, plain, in groups, in groups and braces,
or in groups behind `urn:uuid:`. These are read and nothing else.
-/

namespace ChunkStore

def Nibble.IsWritten (n : Nibble) (c : Char) : Prop :=
  "0123456789abcdef".toList[n.val]? = some c ∨ "0123456789ABCDEF".toList[n.val]? = some c

namespace Nibble

instance (n : Nibble) (c : Char) : Decidable (n.IsWritten c) :=
  inferInstanceAs (Decidable (_ ∨ _))

lemma isWritten_ofNat : ∀ k < 103, ∀ n,
    ofChar? (Char.ofNat k) = some n ↔ IsWritten n (Char.ofNat k) := by decide +kernel

lemma toNat_lt_of_ofChar? {c : Char} {n : Nibble} (h : ofChar? c = some n) : c.toNat < 103 := by
  rw [ofChar?] at h
  split at h
  next hc => exact Nat.lt_of_le_of_lt (Char.le_def.1 hc.2) (by decide)
  next =>
    split at h
    next hc => exact Nat.lt_of_le_of_lt (Char.le_def.1 hc.2) (by decide)
    next =>
      split at h
      next hc => exact Nat.lt_of_le_of_lt (Char.le_def.1 hc.2) (by decide)
      next => cases h

lemma IsWritten.mem {c : Char} {n : Nibble} (h : n.IsWritten c) :
    c ∈ "0123456789abcdefABCDEF".toList := by
  have hdigits : "0123456789abcdef".toList ++ "0123456789ABCDEF".toList ⊆
      "0123456789abcdefABCDEF".toList := by decide +kernel
  exact hdigits (List.mem_append.2 (h.imp List.mem_of_getElem? List.mem_of_getElem?))

lemma IsWritten.toNat_lt {c : Char} {n : Nibble} (h : n.IsWritten c) : c.toNat < 103 := by
  have hall : "0123456789abcdefABCDEF".toList.all fun d => d.toNat < 103 := by decide +kernel
  exact of_decide_eq_true (List.all_eq_true.1 hall c h.mem)

lemma ofChar?_eq_some_iff {c : Char} {n : Nibble} : ofChar? c = some n ↔ n.IsWritten c := by
  have hc : ∀ hlt : c.toNat < 103, _ := fun hlt => isWritten_ofNat c.toNat hlt n
  rw [Char.ofNat_toNat] at hc
  exact ⟨fun h => (hc (toNat_lt_of_ofChar? h)).1 h, fun h => (hc h.toNat_lt).2 h⟩

lemma IsWritten.ne_hyphen {n : Nibble} {c : Char} (h : n.IsWritten c) : c ≠ '-' := by
  rintro rfl
  cases ofChar?_eq_some_iff.2 h

lemma IsWritten.utf8Size {n : Nibble} {c : Char} (h : n.IsWritten c) : c.utf8Size = 1 := by
  have hall : "0123456789abcdefABCDEF".toList.all fun d => d.utf8Size = 1 := by decide +kernel
  exact of_decide_eq_true (List.all_eq_true.1 hall c h.mem)

lemma mapM_ofChar?_eq_some_iff {cs : List Char} {ns : List Nibble} :
    cs.mapM ofChar? = some ns ↔ List.Forall₂ IsWritten ns cs := by
  induction cs generalizing ns with
  | nil => cases ns <;> simp
  | cons c cs ih =>
    cases ns with
    | nil => simp [Option.bind_eq_some_iff]
    | cons n ns => simp [Option.bind_eq_some_iff, ih, ofChar?_eq_some_iff]

end Nibble

namespace Uuid

variable {u : Uuid} {cs ts : List Char}

lemma ofPlain?_eq_some_iff : ofPlain? cs = some u ↔ List.Forall₂ Nibble.IsWritten u.digits cs := by
  rw [← Nibble.mapM_ofChar?_eq_some_iff, ofPlain?]
  cases cs.mapM Nibble.ofChar? with
  | none => simp
  | some digits =>
    obtain ⟨ns, hns⟩ := u
    by_cases h : digits.length = 32
    · simp [h]
    · simp only [dif_neg h, reduceCtorEq, Option.some.injEq, false_iff]
      rintro rfl
      exact h hns

inductive Grouped : List Char → List Char → Prop
  | mk {a b c d e : List Char} (ha : a.length = 8) (hb : b.length = 4) (hc : c.length = 4)
    (hd : d.length = 4) (he : e.length = 12) :
    Grouped (a ++ b ++ c ++ d ++ e) (a ++ '-' :: b ++ '-' :: c ++ '-' :: d ++ '-' :: e)

lemma Grouped.length_eq (h : Grouped cs ts) : cs.length = 32 := by
  obtain ⟨ha, hb, hc, hd, he⟩ := h
  simp only [List.length_append]
  omega

lemma Grouped.eq_hyphenate (h : Grouped cs ts) : ts = hyphenate cs := by
  obtain ⟨ha, hb, hc, hd, he⟩ := h
  simp (disch := omega) [hyphenate, List.drop_append, List.drop_eq_nil_of_le, ha, hb, hc]

lemma drop_eq_take_append (i n : Nat) {x : Char} (h : ts[i + n]? = some x) :
    ts.drop i = (ts.drop i).take n ++ x :: ts.drop (i + n + 1) := by
  obtain ⟨hlt, rfl⟩ := List.getElem?_eq_some_iff.1 h
  rw [← List.drop_eq_getElem_cons hlt, ← List.drop_drop, List.take_append_drop]

lemma eq_groups (h : ∀ i ∈ [8, 13, 18, 23], ts[i]? = some '-') :
    ts = ts.take 8 ++ '-' :: (ts.drop 9).take 4 ++ '-' :: (ts.drop 14).take 4 ++
      '-' :: (ts.drop 19).take 4 ++ '-' :: ts.drop 24 := by
  have ha := drop_eq_take_append 0 8 (h 8 (by simp))
  have hb := drop_eq_take_append 9 4 (h 13 (by simp))
  have hc := drop_eq_take_append 14 4 (h 18 (by simp))
  have hd := drop_eq_take_append 19 4 (h 23 (by simp))
  rw [List.drop_zero] at ha
  conv_lhs => rw [ha, hb, hc, hd]
  simp only [List.append_assoc, List.cons_append]

lemma filter_append_hyphen (as bs : List Char) :
    (as ++ '-' :: bs).filter (· ≠ '-') = (as ++ bs).filter (· ≠ '-') := by simp

lemma grouped_of_hyphens (hlen : ts.length = 36) (h : ∀ i ∈ [8, 13, 18, 23], ts[i]? = some '-')
    (hcs : (ts.filter (· ≠ '-')).length = 32) : Grouped (ts.filter (· ≠ '-')) ts := by
  have hts := eq_groups h
  -- there are 32 characters outside the places of the hyphens and 32 that are no hyphens
  have hsub : (ts.filter (· ≠ '-')).Sublist (ts.take 8 ++ (ts.drop 9).take 4 ++
      (ts.drop 14).take 4 ++ (ts.drop 19).take 4 ++ ts.drop 24) := by
    conv_lhs => rw [hts]
    simp only [List.append_assoc, List.cons_append, filter_append_hyphen]
    simp only [← List.append_assoc, filter_append_hyphen]
    exact List.filter_sublist
  have heq := hsub.eq_of_length (by rw [hcs]; simp [hlen])
  rw [heq]
  conv_rhs => rw [hts]
  exact .mk (by simp [hlen]) (by simp [hlen]) (by simp [hlen]) (by simp [hlen]) (by simp [hlen])

lemma exists_written {ns : List Nibble} (h : List.Forall₂ Nibble.IsWritten ns cs) :
    ∀ c ∈ cs, ∃ n : Nibble, n.IsWritten c := by
  induction h with
  | nil => simp
  | cons hc _ ih => exact List.forall_mem_cons.2 ⟨⟨_, hc⟩, ih⟩

lemma ne_hyphen_of_written {ns : List Nibble} (h : List.Forall₂ Nibble.IsWritten ns cs) :
    ∀ c ∈ cs, c ≠ '-' := fun c hc =>
  have ⟨_, hn⟩ := exists_written h c hc
  hn.ne_hyphen

lemma byteLength_of_written (h : List.Forall₂ Nibble.IsWritten u.digits cs) :
    byteLength cs = 32 := by
  rw [byteLength_eq_length, ← h.length_eq, u.length_digits]
  intro c hc
  obtain ⟨n, hn⟩ := exists_written h c hc
  exact hn.utf8Size

lemma byteLength_of_grouped (h : List.Forall₂ Nibble.IsWritten u.digits cs) (hts : Grouped cs ts) :
    byteLength ts = 36 := by
  rw [hts.eq_hyphenate, byteLength_eq_length, length_hyphenate hts.length_eq]
  intro c hc
  obtain rfl | hc := mem_hyphenate hc
  · decide
  · obtain ⟨n, hn⟩ := exists_written h c hc
    exact hn.utf8Size

lemma byteLength_append (as bs : List Char) :
    byteLength (as ++ bs) = byteLength as + byteLength bs := by
  induction as with
  | nil => simp [byteLength]
  | cons c as ih => rw [List.cons_append, byteLength, byteLength, ih, Nat.add_assoc]

lemma utf8Size_toLower_ofNat : ∀ k < 128,
    (Char.ofNat k).toLower.utf8Size = (Char.ofNat k).utf8Size := by decide +kernel

lemma utf8Size_toLower (c : Char) : c.toLower.utf8Size = c.utf8Size := by
  by_cases h : c.toNat < 128
  · have hc := utf8Size_toLower_ofNat c.toNat h
    rwa [Char.ofNat_toNat] at hc
  · have hc : c.toLower = c := dif_neg fun hletter =>
      h (Nat.lt_of_le_of_lt (UInt32.le_iff_toNat_le.1 hletter.2) (by decide))
    rw [hc]

lemma byteLength_map_toLower (cs : List Char) :
    byteLength (cs.map Char.toLower) = byteLength cs := by
  induction cs with
  | nil => rfl
  | cons c cs ih => rw [List.map_cons, byteLength, byteLength, ih, utf8Size_toLower]

lemma ofHyphenated?_eq_some_iff : ofHyphenated? ts = some u ↔
    ∃ cs, List.Forall₂ Nibble.IsWritten u.digits cs ∧ Grouped cs ts := by
  constructor
  · intro h
    rw [ofHyphenated?] at h
    split at h
    next hshape =>
      have hdigits := ofPlain?_eq_some_iff.1 h
      have hhyphens : ∀ i ∈ [8, 13, 18, 23], ts[i]? = some '-' := by
        simpa only [List.all_eq_true, decide_eq_true_eq] using hshape.2
      have hcs := hdigits.length_eq
      rw [u.length_digits] at hcs
      exact ⟨_, hdigits, grouped_of_hyphens hshape.1 hhyphens hcs.symm⟩
    · cases h
  · rintro ⟨cs, hdigits, hgrouped⟩
    have hlen := hgrouped.length_eq
    rw [hgrouped.eq_hyphenate, ofHyphenated?, if_pos,
      filter_hyphenate (ne_hyphen_of_written hdigits), ofPlain?_eq_some_iff.2 hdigits]
    refine ⟨length_hyphenate hlen, List.all_eq_true.2 fun i hi => ?_⟩
    exact decide_eq_true (getElem?_hyphenate hlen hi)

lemma insideBraces?_eq_some_iff : insideBraces? ts = some cs ↔ ts = '\x7b' :: cs ++ ['\x7d'] := by
  constructor
  · intro h
    unfold insideBraces? at h
    split at h
    next rest =>
      split at h
      next hlast =>
        cases h
        rw [List.cons_append, List.dropLast_append_getLast? _ hlast]
      · cases h
    · cases h
  · rintro rfl
    simp [insideBraces?]

lemma afterUrn?_eq_some_iff : afterUrn? ts = some cs ↔
    ∃ scheme, scheme.map Char.toLower = urn ∧ ts = scheme ++ cs := by
  rw [afterUrn?]
  constructor
  · intro h
    split at h
    next hscheme =>
      cases h
      exact ⟨_, hscheme, (List.take_append_drop _ ts).symm⟩
    · cases h
  · rintro ⟨scheme, hscheme, rfl⟩
    have hlen : scheme.length = urn.length := by rw [← hscheme, List.length_map]
    rw [← hlen, List.take_left, List.drop_left, if_pos hscheme]

inductive Spells (u : Uuid) : List Char → Prop
  | plain {cs : List Char} (h : List.Forall₂ Nibble.IsWritten u.digits cs) : Spells u cs
  | hyphenated {cs ts : List Char} (h : List.Forall₂ Nibble.IsWritten u.digits cs)
    (hts : Grouped cs ts) : Spells u ts
  | braced {cs ts : List Char} (h : List.Forall₂ Nibble.IsWritten u.digits cs)
    (hts : Grouped cs ts) : Spells u ('\x7b' :: ts ++ ['\x7d'])
  | urn {cs ts scheme : List Char} (h : List.Forall₂ Nibble.IsWritten u.digits cs)
    (hts : Grouped cs ts) (hscheme : scheme.map Char.toLower = "urn:uuid:".toList) :
    Spells u (scheme ++ ts)

lemma readHyphenated_eq_ok_iff : readHyphenated ts = .ok u ↔
    ∃ cs, List.Forall₂ Nibble.IsWritten u.digits cs ∧ Grouped cs ts := by
  rw [← ofHyphenated?_eq_some_iff, readHyphenated]
  split
  next h => rw [h, Option.some.injEq, Except.ok.injEq]
  next h => simp [h]

lemma read_eq_ok_iff : read ts = .ok u ↔ u.Spells ts := by
  constructor
  · intro h
    rw [read] at h
    split at h
    · obtain ⟨cs, hcs, hts⟩ := readHyphenated_eq_ok_iff.1 h
      exact .hyphenated hcs hts
    next hinner =>
      obtain ⟨cs, hcs, hts⟩ := readHyphenated_eq_ok_iff.1 h
      rw [insideBraces?_eq_some_iff.1 hinner]
      exact .braced hcs hts
    next hinner =>
      obtain ⟨cs, hcs, hts⟩ := readHyphenated_eq_ok_iff.1 h
      obtain ⟨scheme, hscheme, rfl⟩ := afterUrn?_eq_some_iff.1 hinner
      exact .urn hcs hts hscheme
    · split at h
      next hplain =>
        cases h
        exact .plain (ofPlain?_eq_some_iff.1 hplain)
      · cases h
    · cases h
  · rintro (hcs | ⟨hcs, hts⟩ | ⟨hcs, hts⟩ | ⟨hcs, hts, hscheme⟩)
    · simp only [read, byteLength_of_written hcs, ofPlain?_eq_some_iff.2 hcs]
    · simp only [read, byteLength_of_grouped hcs hts]
      exact readHyphenated_eq_ok_iff.2 ⟨_, hcs, hts⟩
    next ts =>
      have hlen : byteLength ('\x7b' :: ts ++ ['\x7d']) = 38 := by
        rw [byteLength_append, byteLength, byteLength_of_grouped hcs hts]
        rfl
      simp only [read, hlen, insideBraces?_eq_some_iff.2 (Eq.refl ('\x7b' :: ts ++ ['\x7d']))]
      exact readHyphenated_eq_ok_iff.2 ⟨_, hcs, hts⟩
    next ts scheme =>
      have hlen : byteLength (scheme ++ ts) = 45 := by
        rw [byteLength_append, ← byteLength_map_toLower scheme, hscheme,
          byteLength_of_grouped hcs hts]
        decide
      simp only [read, hlen, afterUrn?_eq_some_iff.2 ⟨scheme, hscheme, rfl⟩]
      exact readHyphenated_eq_ok_iff.2 ⟨_, hcs, hts⟩

lemma plain_written (u : Uuid) : List.Forall₂ Nibble.IsWritten u.digits u.plain :=
  ofPlain?_eq_some_iff.1 u.ofPlain?_plain

lemma grouped_hyphenate (h : cs.length = 32) : Grouped cs (hyphenate cs) := by
  have hcs : cs.take 8 ++ (cs.drop 8).take 4 ++ (cs.drop 12).take 4 ++ (cs.drop 16).take 4 ++
      cs.drop 20 = cs := by
    simp only [List.append_assoc, take_append_drop_add cs 16 4, take_append_drop_add cs 12 4,
      take_append_drop_add cs 8 4, List.take_append_drop]
  conv_lhs => rw [← hcs]
  exact .mk (by simp [h]) (by simp [h]) (by simp [h]) (by simp [h]) (by simp [h])

lemma toLower_of_mem_hyphenated {c : Char} (hc : c ∈ u.hyphenated) : c.toLower = c := by
  obtain rfl | hc := mem_hyphenate hc
  · decide
  · obtain ⟨n, -, rfl⟩ := List.mem_map.1 hc
    exact Nibble.toLower_toChar n

lemma version_eq_four_iff : u.version = 4 ↔ u.digits[12]? = some 4 := by
  rw [version, digitAt]
  cases u.digits[12]? with
  | none => simp
  | some n =>
    simp only [Option.map_some, Option.getD_some, Option.some.injEq, Fin.ext_iff]
    exact Iff.rfl

end Uuid

namespace StoreId

open Uuid Upgrade

variable {s : String} {u : Uuid}

lemma identity_of_spells (h : u.Spells s.toList) :
    identity (some s) = if u.digits[12]? = some 4 then .ok ⟨u⟩
      else .error (.invalidIdentity (.notRandom s)) := by
  rw [identity, StoreId.read, read_eq_ok_iff.2 h]
  by_cases hv : u.digits[12]? = some 4
  · simp only [if_pos hv, if_pos (version_eq_four_iff.2 hv)]
    rfl
  · simp only [if_neg hv, if_neg fun h => hv (version_eq_four_iff.1 h)]
    rfl

lemma identity_of_no_spelling (h : ∀ u : Uuid, ¬ u.Spells s.toList) :
    ∃ flaw, identity (some s) = .error (.invalidIdentity (.malformed s flaw)) := by
  rw [identity, StoreId.read]
  cases hread : Uuid.read s.toList with
  | error flaw => exact ⟨flaw, rfl⟩
  | ok u => exact absurd (read_eq_ok_iff.1 hread) (h u)

lemma identity_eq_ok_iff {id : StoreId} : identity (some s) = .ok id ↔
    id.uuid.Spells s.toList ∧ id.uuid.digits[12]? = some 4 := by
  constructor
  · intro h
    by_cases hs : ∃ u : Uuid, u.Spells s.toList
    · obtain ⟨u, hu⟩ := hs
      rw [identity_of_spells hu] at h
      split at h
      next hv =>
        cases h
        exact ⟨hu, hv⟩
      · cases h
    · obtain ⟨flaw, hflaw⟩ := identity_of_no_spelling (not_exists.1 hs)
      rw [hflaw] at h
      cases h
  · rintro ⟨hs, hv⟩
    rw [identity_of_spells hs, if_pos hv]

lemma identity_text {id : StoreId} (hv : id.uuid.digits[12]? = some 4) :
    identity (some id.text) = .ok id := by
  rw [identity, read_text (version_eq_four_iff.2 hv)]
  rfl

lemma text_written (id : StoreId) : ∃ cs, List.Forall₂ Nibble.IsWritten id.uuid.digits cs ∧
    Grouped cs id.text.toList ∧ ∀ c ∈ id.text.toList, c.toLower = c := by
  rw [text, String.toList_ofList]
  exact ⟨_, plain_written _, grouped_hyphenate id.uuid.length_plain,
    fun _ => toLower_of_mem_hyphenated⟩

theorem identity_read_exactly (s : String) :
    (∀ id : StoreId, identity (some s) = .ok id ↔
      id.uuid.Spells s.toList ∧ id.uuid.digits[12]? = some 4) ∧
    (∀ u : Uuid, u.Spells s.toList → identity (some s) =
      if u.digits[12]? = some 4 then .ok ⟨u⟩ else .error (.invalidIdentity (.notRandom s))) ∧
    ((∀ u : Uuid, ¬ u.Spells s.toList) →
      ∃ flaw, identity (some s) = .error (.invalidIdentity (.malformed s flaw))) ∧
    (∀ id : StoreId, ∃ cs, List.Forall₂ Nibble.IsWritten id.uuid.digits cs ∧
      Grouped cs id.text.toList ∧ ∀ c ∈ id.text.toList, c.toLower = c) ∧
    (∀ id : StoreId, id.uuid.digits[12]? = some 4 → identity (some id.text) = .ok id) ∧
    (∀ id : StoreId, identity (some s) = .ok id → identity (some id.text) = .ok id) :=
  ⟨fun _ => identity_eq_ok_iff, fun _ => identity_of_spells, identity_of_no_spelling, text_written,
    fun _ => identity_text, fun _ h => identity_text (identity_eq_ok_iff.1 h).2⟩

def sample : StoreId where
  uuid := ⟨[5, 5, 0, 14, 8, 4, 0, 0, 14, 2, 9, 11, 4, 1, 13, 4, 10, 7, 1, 6, 4, 4, 6, 6, 5, 5, 4, 4,
    0, 0, 0, 0], rfl⟩

theorem identity_read_exactly_sample :
    identity (some "Urn:UUID:550e8400-E29B-41d4-a716-446655440000") = .ok sample ∧
    identity (some "550e8400-e29b-41d4-a716-446655440000") = .ok sample := by
  have h : identity (some "Urn:UUID:550e8400-E29B-41d4-a716-446655440000") = .ok sample := by
    decide +kernel
  exact ⟨h, (identity_read_exactly _).2.2.2.2.2 sample h⟩

end StoreId
end ChunkStore
