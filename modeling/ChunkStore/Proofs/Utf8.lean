import ChunkStore.Text.Utf8
import Mathlib.Tactic.Lemma
import Mathlib.Tactic.SplitIfs

namespace ChunkStore.Utf8

lemma toNat_ofNat {n : Nat} (h : n < 256) : (UInt8.ofNat n).toNat = n := by
  rw [UInt8.toNat_ofNat', Nat.mod_eq_of_lt h]

lemma toNat_continuation (n : Nat) : (UInt8.ofNat (0x80 + n % 64)).toNat = 0x80 + n % 64 :=
  toNat_ofNat (by omega)

lemma isContinuation_ofNat (n : Nat) : isContinuation (UInt8.ofNat (0x80 + n % 64)) = true := by
  simp only [isContinuation, toNat_continuation, Bool.and_eq_true, decide_eq_true_eq]
  omega

lemma not_outside {least greatest b : Nat} (h₁ : least ≤ b) (h₂ : b ≤ greatest) :
    (decide (b < least) || decide (greatest < b)) = false := by
  simp only [Bool.or_eq_false_iff, decide_eq_false_iff_not]
  omega

lemma readChar?_one {n : Nat} (h : n < 0x80) (rest : Bytes) :
    readChar? (UInt8.ofNat n :: rest) = .ok (Char.ofNat n, rest) := by
  have ha : (UInt8.ofNat n).toNat = n := toNat_ofNat (by omega)
  simp only [readChar?, ha, h, if_true]

lemma readChar?_two {n : Nat} (h₁ : 0x80 ≤ n) (h₂ : n < 0x800) (rest : Bytes) :
    readChar? (UInt8.ofNat (0xC0 + n / 64) :: UInt8.ofNat (0x80 + n % 64) :: rest) =
      .ok (Char.ofNat n, rest) := by
  have ha : (UInt8.ofNat (0xC0 + n / 64)).toNat = 0xC0 + n / 64 := toNat_ofNat (by omega)
  have hshape : shape? (0xC0 + n / 64) = some (1, 0x80, 0xBF) := by
    rw [shape?, if_neg (by omega), if_pos (by omega)]
  have hn : (0xC0 + n / 64 - 0xC0) * 64 + (0x80 + n % 64 - 0x80) = n := by omega
  have hb := @not_outside 0x80 0xBF (0x80 + n % 64) (by omega) (by omega)
  have hlead : ¬ 0xC0 + n / 64 < 0x80 := by omega
  simp only [readChar?, ha, hlead, hshape, toNat_continuation, hb, hn, Bool.false_eq_true, if_false,
    if_true]

lemma shape?_three {n : Nat} (h₁ : 0x800 ≤ n) (h₂ : n < 0x10000) (hs : n < 0xD800 ∨ 0xDFFF < n) :
    ∃ least greatest, shape? (0xE0 + n / 4096) = some (2, least, greatest) ∧
      least ≤ 0x80 + n / 64 % 64 ∧ 0x80 + n / 64 % 64 ≤ greatest := by
  rw [shape?]
  split_ifs <;> first | omega | exact ⟨_, _, rfl, by omega, by omega⟩

lemma readChar?_three {n : Nat} (h₁ : 0x800 ≤ n) (h₂ : n < 0x10000)
    (hs : n < 0xD800 ∨ 0xDFFF < n) (rest : Bytes) :
    readChar? (UInt8.ofNat (0xE0 + n / 4096) :: UInt8.ofNat (0x80 + n / 64 % 64) ::
      UInt8.ofNat (0x80 + n % 64) :: rest) = .ok (Char.ofNat n, rest) := by
  have ha : (UInt8.ofNat (0xE0 + n / 4096)).toNat = 0xE0 + n / 4096 := toNat_ofNat (by omega)
  obtain ⟨least, greatest, hshape, hl, hg⟩ := shape?_three h₁ h₂ hs
  have hn : (0xE0 + n / 4096 - 0xE0) * 4096 + (0x80 + n / 64 % 64 - 0x80) * 64 +
      (0x80 + n % 64 - 0x80) = n := by omega
  have hlead : ¬ 0xE0 + n / 4096 < 0x80 := by omega
  simp only [readChar?, ha, hlead, hshape, toNat_continuation, not_outside hl hg,
    isContinuation_ofNat, hn, Nat.reduceEqDiff, Bool.not_true, Bool.false_eq_true, if_false, if_true]

lemma shape?_four {n : Nat} (h₁ : 0x10000 ≤ n) (h₂ : n < 0x110000) :
    ∃ least greatest, shape? (0xF0 + n / 262144) = some (3, least, greatest) ∧
      least ≤ 0x80 + n / 4096 % 64 ∧ 0x80 + n / 4096 % 64 ≤ greatest := by
  rw [shape?]
  split_ifs <;> first | omega | exact ⟨_, _, rfl, by omega, by omega⟩

lemma readChar?_four {n : Nat} (h₁ : 0x10000 ≤ n) (h₂ : n < 0x110000) (rest : Bytes) :
    readChar? (UInt8.ofNat (0xF0 + n / 262144) :: UInt8.ofNat (0x80 + n / 4096 % 64) ::
      UInt8.ofNat (0x80 + n / 64 % 64) :: UInt8.ofNat (0x80 + n % 64) :: rest) =
      .ok (Char.ofNat n, rest) := by
  have ha : (UInt8.ofNat (0xF0 + n / 262144)).toNat = 0xF0 + n / 262144 := toNat_ofNat (by omega)
  obtain ⟨least, greatest, hshape, hl, hg⟩ := shape?_four h₁ h₂
  have hn : (0xF0 + n / 262144 - 0xF0) * 262144 + (0x80 + n / 4096 % 64 - 0x80) * 4096 +
      (0x80 + n / 64 % 64 - 0x80) * 64 + (0x80 + n % 64 - 0x80) = n := by omega
  have hlead : ¬ 0xF0 + n / 262144 < 0x80 := by omega
  simp only [readChar?, ha, hlead, hshape, toNat_continuation, not_outside hl hg,
    isContinuation_ofNat, hn, Nat.reduceEqDiff, Bool.not_true, Bool.false_eq_true, if_false]

lemma readChar?_encodeChar (c : Char) (rest : Bytes) :
    readChar? (encodeChar c ++ rest) = .ok (c, rest) := by
  have hvalid : c.toNat < 0xD800 ∨ 0xDFFF < c.toNat ∧ c.toNat < 0x110000 := c.valid
  have hread : readChar? (encodeChar c ++ rest) = .ok (Char.ofNat c.toNat, rest) := by
    simp only [encodeChar]
    split_ifs with h₁ h₂ h₃
    · exact readChar?_one h₁ rest
    · exact readChar?_two (by omega) h₂ rest
    · exact readChar?_three (by omega) h₃ (by omega) rest
    · exact readChar?_four (by omega) (by omega) rest
  rwa [Char.ofNat_toNat] at hread

lemma length_encodeChar_pos (c : Char) : 0 < (encodeChar c).length := by
  simp only [encodeChar]
  split_ifs <;> simp

lemma decodeFrom_encode (cs : List Char) : ∀ index, decodeFrom index (encode cs) = .ok cs := by
  induction cs with
  | nil =>
    intro index
    rw [decodeFrom]
    rfl
  | cons c cs ih =>
    intro index
    have hread := readChar?_encodeChar c (encode cs)
    have hne : (encodeChar c ++ encode cs).isEmpty = false := by
      cases hc : encodeChar c with
      | nil => exact absurd (length_encodeChar_pos c) (by simp [hc])
      | cons b bs => rfl
    change decodeFrom index (encodeChar c ++ encode cs) = _
    rw [decodeFrom, if_neg (by simp [hne])]
    split
    next he => rw [hread] at he; cases he
    next he => rw [hread] at he; cases he
    next d rest hd =>
      obtain ⟨rfl, rfl⟩ : c = d ∧ encode cs = rest := by simpa [hread] using hd
      simp [ih, Except.map]

theorem decode_ofString (s : String) : decode (ofString s) = .ok s := by
  rw [decode, ofString, decodeFrom_encode]
  simp [Except.map]

lemma toNat_char {n : Nat} (h : n < 0xD800 ∨ 0xDFFF < n ∧ n < 0x110000) : (Char.ofNat n).toNat = n := by
  rw [Char.ofNat, dif_pos h]
  rfl

lemma ofNat_eq {n : Nat} {b : UInt8} (h : n = b.toNat) : UInt8.ofNat n = b := by
  rw [h, UInt8.ofNat_toNat]

lemma encodeChar_one {a : UInt8} (ha : a.toNat < 0x80) : encodeChar (Char.ofNat a.toNat) = [a] := by
  simp only [encodeChar, toNat_char (.inl (by omega : a.toNat < 0xD800)), if_pos ha, UInt8.ofNat_toNat]

lemma encodeChar_two {a b : UInt8} (ha : 0xC2 ≤ a.toNat ∧ a.toNat < 0xE0)
    (hb : 0x80 ≤ b.toNat ∧ b.toNat ≤ 0xBF) :
    encodeChar (Char.ofNat ((a.toNat - 0xC0) * 64 + (b.toNat - 0x80))) = [a, b] := by
  have hn := toNat_char (.inl (by omega : (a.toNat - 0xC0) * 64 + (b.toNat - 0x80) < 0xD800))
  simp only [encodeChar, hn]
  rw [if_neg (by omega), if_pos (by omega), ofNat_eq (b := a) (by omega), ofNat_eq (b := b) (by omega)]

lemma encodeChar_three {a b c : UInt8} (ha : 0xE0 ≤ a.toNat ∧ a.toNat < 0xF0)
    (hb : 0x80 ≤ b.toNat ∧ b.toNat ≤ 0xBF) (hc : 0x80 ≤ c.toNat ∧ c.toNat ≤ 0xBF)
    (hlong : a.toNat = 0xE0 → 0xA0 ≤ b.toNat) (hsurrogate : a.toNat = 0xED → b.toNat ≤ 0x9F) :
    encodeChar (Char.ofNat ((a.toNat - 0xE0) * 4096 + (b.toNat - 0x80) * 64 + (c.toNat - 0x80))) =
      [a, b, c] := by
  have hn := @toNat_char ((a.toNat - 0xE0) * 4096 + (b.toNat - 0x80) * 64 + (c.toNat - 0x80)) (by omega)
  simp only [encodeChar, hn]
  rw [if_neg (by omega), if_neg (by omega), if_pos (by omega), ofNat_eq (b := a) (by omega),
    ofNat_eq (b := b) (by omega), ofNat_eq (b := c) (by omega)]

lemma encodeChar_four {a b c d : UInt8} (ha : 0xF0 ≤ a.toNat ∧ a.toNat ≤ 0xF4)
    (hb : 0x80 ≤ b.toNat ∧ b.toNat ≤ 0xBF) (hc : 0x80 ≤ c.toNat ∧ c.toNat ≤ 0xBF)
    (hd : 0x80 ≤ d.toNat ∧ d.toNat ≤ 0xBF) (hlong : a.toNat = 0xF0 → 0x90 ≤ b.toNat)
    (hlast : a.toNat = 0xF4 → b.toNat ≤ 0x8F) :
    encodeChar (Char.ofNat ((a.toNat - 0xF0) * 262144 + (b.toNat - 0x80) * 4096 +
      (c.toNat - 0x80) * 64 + (d.toNat - 0x80))) = [a, b, c, d] := by
  have hn := @toNat_char ((a.toNat - 0xF0) * 262144 + (b.toNat - 0x80) * 4096 +
    (c.toNat - 0x80) * 64 + (d.toNat - 0x80)) (by omega)
  simp only [encodeChar, hn]
  rw [if_neg (by omega), if_neg (by omega), if_neg (by omega), ofNat_eq (b := a) (by omega),
    ofNat_eq (b := b) (by omega), ofNat_eq (b := c) (by omega), ofNat_eq (b := d) (by omega)]

lemma of_shape? {lead more least greatest : Nat} (h : shape? lead = some (more, least, greatest)) :
    0x80 ≤ least ∧ greatest ≤ 0xBF ∧
      ((more = 1 ∧ 0xC2 ≤ lead ∧ lead < 0xE0) ∨
        (more = 2 ∧ 0xE0 ≤ lead ∧ lead < 0xF0 ∧ (lead = 0xE0 → 0xA0 ≤ least) ∧
          (lead = 0xED → greatest ≤ 0x9F)) ∨
        more = 3 ∧ 0xF0 ≤ lead ∧ lead ≤ 0xF4 ∧ (lead = 0xF0 → 0x90 ≤ least) ∧
          (lead = 0xF4 → greatest ≤ 0x8F)) := by
  rw [shape?] at h
  split_ifs at h <;> cases h <;> omega

lemma of_isContinuation {b : UInt8} (h : ¬ (!isContinuation b) = true) :
    0x80 ≤ b.toNat ∧ b.toNat ≤ 0xBF := by
  simpa [isContinuation] using h

lemma of_not_outside {least greatest b : Nat}
    (h : ¬ (decide (b < least) || decide (greatest < b)) = true) : least ≤ b ∧ b ≤ greatest := by
  simpa using h

theorem eq_encodeChar_append {bs rest : Bytes} {c : Char} (h : readChar? bs = .ok (c, rest)) :
    bs = encodeChar c ++ rest := by
  rw [readChar?.eq_def] at h
  split at h
  · cases h
  next a bs =>
    split at h
    next ha =>
      obtain ⟨rfl, rfl⟩ := Prod.mk.inj (Except.ok.inj h)
      rw [encodeChar_one ha]
      rfl
    next ha =>
      split at h
      · cases h
      · cases h
      next more least greatest b bs hshape =>
        obtain ⟨hleast, hgreatest, hmore⟩ := of_shape? hshape
        split at h
        · cases h
        next hb =>
          obtain ⟨hb, hb'⟩ := of_not_outside hb
          split at h
          next hone =>
            obtain ⟨rfl, rfl⟩ := Prod.mk.inj (Except.ok.inj h)
            rw [encodeChar_two (by omega) (by omega)]
            rfl
          next hone =>
            split at h
            · cases h
            next c bs =>
              split at h
              · cases h
              next hc =>
                have hc := of_isContinuation hc
                split at h
                next htwo =>
                  obtain ⟨rfl, rfl⟩ := Prod.mk.inj (Except.ok.inj h)
                  rw [encodeChar_three (by omega) (by omega) hc (by omega) (by omega)]
                  rfl
                next htwo =>
                  split at h
                  · cases h
                  next d bs =>
                    split at h
                    · cases h
                    next hd =>
                      have hd := of_isContinuation hd
                      obtain ⟨rfl, rfl⟩ := Prod.mk.inj (Except.ok.inj h)
                      rw [encodeChar_four (by omega) (by omega) hc hd (by omega) (by omega)]
                      rfl

lemma encode_of_decodeFrom {index : Nat} {bs : Bytes} {cs : List Char} (h : decodeFrom index bs = .ok cs) :
    encode cs = bs := by
  induction hn : bs.length using Nat.strongRecOn generalizing index bs cs with
  | ind n ih =>
    rw [decodeFrom] at h
    split at h
    next hempty =>
      obtain rfl := Except.ok.inj h
      exact (List.isEmpty_iff.1 hempty).symm
    · split at h
      · cases h
      · cases h
      next c rest hread =>
        cases hrest : decodeFrom (index + (bs.length - rest.length)) rest with
        | error flaw =>
          rw [hrest] at h
          cases h
        | ok ds =>
          rw [hrest] at h
          obtain rfl := Except.ok.inj h
          have hlt := length_lt_of_readChar? hread
          rw [eq_encodeChar_append hread, ← ih rest.length (hn ▸ hlt) hrest rfl]
          rfl

theorem ofString_of_decode {bs : Bytes} {s : String} (h : decode bs = .ok s) : ofString s = bs := by
  rw [decode] at h
  cases hcs : decodeFrom 0 bs with
  | error flaw =>
    rw [hcs] at h
    cases h
  | ok cs =>
    rw [hcs] at h
    obtain rfl := Except.ok.inj h
    rw [ofString, String.toList_ofList, encode_of_decodeFrom hcs]

end ChunkStore.Utf8
