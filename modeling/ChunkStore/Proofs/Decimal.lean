import ChunkStore.Text.Decimal
import Mathlib.Tactic.Lemma

namespace ChunkStore.Decimal

lemma le_ofDigitChars (cs : List Char) (value : Nat) : value ≤ Nat.ofDigitChars 10 cs value := by
  induction cs generalizing value with
  | nil => simp
  | cons c cs ih =>
    rw [Nat.ofDigitChars_cons]
    have h := ih (10 * value + (c.toNat - '0'.toNat))
    omega

lemma readDigits_ofDigitChars {limit : Nat} (beyond : Flaw) {cs : List Char}
    (hcs : ∀ c ∈ cs, c.isDigit) (value : Nat) (h : Nat.ofDigitChars 10 cs value ≤ limit) :
    readDigits limit beyond value cs = .ok (Nat.ofDigitChars 10 cs value) := by
  induction cs generalizing value with
  | nil => simp [readDigits]
  | cons c cs ih =>
    rw [Nat.ofDigitChars_cons] at h
    have hle := Nat.le_trans (le_ofDigitChars cs (10 * value + (c.toNat - '0'.toNat))) h
    rw [readDigits, if_pos (hcs c (by simp)), Nat.ofDigitChars_cons]
    dsimp only
    rw [if_neg (Nat.not_lt.2 hle)]
    exact ih (fun d hd => hcs d (by simp [hd])) _ h

lemma readDigits_toDigits {limit n : Nat} (beyond : Flaw) (h : n ≤ limit) :
    readDigits limit beyond 0 (Nat.toDigits 10 n) = .ok n := by
  have hn : Nat.ofDigitChars 10 (Nat.toDigits 10 n) 0 = n := Nat.ofDigitChars_ten_toDigits
  rw [readDigits_ofDigitChars beyond (fun c hc => Nat.isDigit_of_mem_toDigits (by decide) (by decide) hc) 0
    (by rwa [hn]), hn]

lemma read_of_isDigit (below above : Nat) {c : Char} (hc : c.isDigit) (cs : List Char) :
    read below above (c :: cs) = (readDigits above .tooLarge 0 (c :: cs)).map fun n => (n : Int) := by
  have hp : c ≠ '+' := by rintro rfl; simp at hc
  have hm : c ≠ '-' := by rintro rfl; simp at hc
  unfold read
  split <;> simp_all

lemma read_ofNat {below above n : Nat} (h : n ≤ above) :
    read below above (ofNat n).toList = .ok (n : Int) := by
  rw [ofNat, String.toList_ofList]
  have hr := readDigits_toDigits .tooLarge h
  cases hd : Nat.toDigits 10 n with
  | nil => exact absurd hd Nat.toDigits_ne_nil
  | cons c cs =>
    have hc : c.isDigit := by
      apply Nat.isDigit_of_mem_toDigits (b := 10) (n := n) (by decide) (by decide)
      simp [hd]
    rw [read_of_isDigit _ _ hc, ← hd, hr]
    rfl

lemma read_negSucc {below above n : Nat} (h : n + 1 ≤ below) :
    read below above (ofInt (.negSucc n)).toList = .ok (.negSucc n) := by
  rw [ofInt, String.toList_ofList]
  have hr := readDigits_toDigits .tooSmall h
  cases hd : Nat.toDigits 10 (n + 1) with
  | nil => exact absurd hd Nat.toDigits_ne_nil
  | cons c cs =>
    rw [read, ← hd, hr]
    · rfl
    · simp

theorem read_ofInt {below above : Nat} {i : Int} (hb : -(below : Int) ≤ i) (ha : i ≤ above) :
    read below above (ofInt i).toList = .ok i := by
  cases i with
  | ofNat n => exact read_ofNat (Int.ofNat_le.1 ha)
  | negSucc n => exact read_negSucc (by omega)

theorem readInt32_ofInt (v : Int32) : readInt32 (ofInt v.toInt) = .ok v := by
  have hb := v.le_toInt
  have ha := v.toInt_lt
  rw [readInt32, read_ofInt (by omega) (by omega)]
  exact congrArg Except.ok (Int32.ofInt_toInt v)

theorem readInt64_ofInt (v : Int64) : readInt64 (ofInt v.toInt) = .ok v := by
  have hb := v.le_toInt
  have ha := v.toInt_lt
  rw [readInt64, read_ofInt (by omega) (by omega)]
  exact congrArg Except.ok (Int64.ofInt_toInt v)

theorem ofInt_injective {i j : Int} (h : ofInt i = ofInt j) : i = j := by
  have hi : read (i.natAbs + j.natAbs) (i.natAbs + j.natAbs) (ofInt i).toList = .ok i :=
    read_ofInt (by omega) (by omega)
  have hj : read (i.natAbs + j.natAbs) (i.natAbs + j.natAbs) (ofInt j).toList = .ok j :=
    read_ofInt (by omega) (by omega)
  rw [h, hj] at hi
  exact (Except.ok.inj hi).symm

def isPart (c : Char) : Bool := c.isDigit || c = '-'

lemma isPart_of_mem_ofInt {i : Int} {c : Char} (h : c ∈ (ofInt i).toList) : isPart c = true := by
  have hdigit {n : Nat} (hc : c ∈ Nat.toDigits 10 n) : isPart c = true := by
    rw [isPart, Nat.isDigit_of_mem_toDigits (by decide) (by decide) hc, Bool.true_or]
  cases i with
  | ofNat n =>
    rw [ofInt, ofNat, String.toList_ofList] at h
    exact hdigit h
  | negSucc n =>
    rw [ofInt, String.toList_ofList] at h
    obtain rfl | h := List.mem_cons.1 h
    · decide
    · exact hdigit h

lemma ofInt_ne_nil (i : Int) : (ofInt i).toList ≠ [] := by
  cases i with
  | ofNat n =>
    rw [ofInt, ofNat, String.toList_ofList]
    exact Nat.toDigits_ne_nil
  | negSucc n => simp [ofInt]

end ChunkStore.Decimal
