import ChunkStore.Varbyte
import Mathlib.Data.List.Forall2
import Mathlib.Tactic.Lemma

/-!
What a code is, byte by byte: codes are read and nothing else is. Codes are read back to the
integers they were written for, whatever follows them, and no code is shorter than the one that is
written.
-/

namespace ChunkStore.Bytes

def SameOrShorter (short long : Bytes) : Prop := short = long ∨ short.length < long.length

lemma SameOrShorter.refl (bs : Bytes) : bs.SameOrShorter bs := .inl rfl

lemma SameOrShorter.length_le {short long : Bytes} (h : short.SameOrShorter long) :
    short.length ≤ long.length := by
  rcases h with rfl | h
  · exact Nat.le_refl _
  · exact Nat.le_of_lt h

lemma SameOrShorter.append {a b c d : Bytes} (h : a.SameOrShorter b) (k : c.SameOrShorter d) :
    SameOrShorter (a ++ c) (b ++ d) := by
  simp only [SameOrShorter, List.length_append]
  rcases h with rfl | h <;> rcases k with rfl | k
  · exact .inl rfl
  all_goals right; omega

lemma SameOrShorter.cons (b : UInt8) {c d : Bytes} (h : c.SameOrShorter d) :
    SameOrShorter (b :: c) (b :: d) :=
  (SameOrShorter.refl [b]).append h

lemma sameOrShorter_flatten {xs ys : List Bytes} (h : List.Forall₂ SameOrShorter xs ys) :
    xs = ys ∨ xs.flatten.length < ys.flatten.length := by
  induction h with
  | nil => exact .inl rfl
  | cons hxy _ ih =>
    simp only [List.flatten_cons, List.length_append]
    rcases hxy with rfl | hxy <;> rcases ih with rfl | ih
    · exact .inl rfl
    all_goals right; omega

end ChunkStore.Bytes

namespace ChunkStore.Varbyte

lemma length_encodeNat_pos (n : Nat) : 0 < (encodeNat n).length := by
  rw [encodeNat]
  split <;> simp

lemma length_encodeNat_le (more : Nat) :
    ∀ n < Nat.pow 128 (more + 1), (encodeNat n).length ≤ more + 1 := by
  induction more with
  | zero =>
    intro n hn
    have hsmall : n < 128 := hn
    rw [encodeNat, if_pos hsmall]
    simp
  | succ more ih =>
    intro n hn
    have hn' : n < Nat.pow 128 (more + 1) * 128 := hn
    have hhigh := ih (n / 128) (Nat.div_lt_of_lt_mul (by rwa [Nat.mul_comm]))
    rw [encodeNat]
    split
    · simp
    · rw [List.length_cons]
      omega

lemma length_encodeNat_mono : ∀ {m n : Nat}, n ≤ m → (encodeNat n).length ≤ (encodeNat m).length := by
  intro m
  induction m using encodeNat.induct with
  | case1 m hsmall =>
    intro n hn
    rw [encodeNat.eq_def n, encodeNat.eq_def m, if_pos hsmall, if_pos (by omega)]
    simp
  | case2 m hlarge ih =>
    intro n hn
    rw [encodeNat.eq_def n, encodeNat.eq_def m, if_neg hlarge]
    split
    · simp
    · have hhigh := ih (Nat.div_le_div_right (c := 128) hn)
      simpa using hhigh

lemma readNat_encodeNat (more : Nat) (rest : Bytes) :
    ∀ n < 16 * Nat.pow 128 more, readNat (more + 1) (encodeNat n ++ rest) = .ok (n, rest) := by
  induction more with
  | zero =>
    intro n hn
    have hsmall : n < 16 := hn
    have hbyte : (UInt8.ofNat n).toNat = n := by rw [UInt8.toNat_ofNat']; omega
    rw [encodeNat, if_pos (by omega)]
    simp only [List.cons_append, List.nil_append, readNat, hbyte, true_and]
    rw [if_neg (by omega), if_pos (by omega), Nat.mod_eq_of_lt (by omega)]
  | succ more ih =>
    intro n hn
    rw [encodeNat]
    split
    next hsmall =>
      have hbyte : (UInt8.ofNat n).toNat = n := by rw [UInt8.toNat_ofNat']; omega
      simp only [List.cons_append, List.nil_append, readNat, hbyte]
      rw [if_neg (by omega), if_pos hsmall, Nat.mod_eq_of_lt hsmall]
    next hlarge =>
      have hbyte : (UInt8.ofNat (128 + n % 128)).toNat = 128 + n % 128 := by
        rw [UInt8.toNat_ofNat']; omega
      have hn' : n < 16 * (Nat.pow 128 more * 128) := hn
      have hhigh := ih (n / 128) (by omega)
      simp only [List.cons_append, readNat, hbyte, hhigh]
      rw [if_neg (by omega), if_neg (by omega)]
      simp only [Except.ok.injEq, Prod.mk.injEq, and_true]
      omega

lemma length_encode_pos (v : Int32) : 0 < (encode v).length := length_encodeNat_pos _

lemma length_encode_le (v : Int32) : (encode v).length ≤ 5 := by
  have hv : v.toUInt32.toNat < 4294967296 := v.toUInt32.toNat_lt
  exact length_encodeNat_le 4 _ (Nat.lt_trans hv (by decide))

lemma read_encode (v : Int32) (rest : Bytes) : read (encode v ++ rest) = .ok (v, rest) := by
  have hv : v.toUInt32.toNat < 16 * Nat.pow 128 4 := v.toUInt32.toNat_lt
  rw [read, encode, readNat_encodeNat 4 rest _ hv]
  simp

lemma length_encode_ofNat_mono {m n : Nat} (hn : n ≤ m) (hm : m < 4294967296) :
    (encode (Int32.ofNat n)).length ≤ (encode (Int32.ofNat m)).length := by
  have hword {k : Nat} (hk : k < 4294967296) : (Int32.ofNat k).toUInt32.toNat = k := by
    have hk' : (Int32.ofNat k).toUInt32 = UInt32.ofNat k := rfl
    rw [hk', UInt32.toNat_ofNat', Nat.mod_eq_of_lt hk]
  rw [encode, encode, hword hm, hword (Nat.lt_of_le_of_lt hn hm)]
  exact length_encodeNat_mono hn

@[simp] lemma encodeAll_nil : encodeAll [] = [] := rfl

@[simp] lemma encodeAll_cons (v : Int32) (vs : List Int32) :
    encodeAll (v :: vs) = encode v ++ encodeAll vs := rfl

lemma length_le_encodeAll (vs : List Int32) : vs.length ≤ (encodeAll vs).length := by
  induction vs with
  | nil => simp
  | cons v vs ih =>
    have hv := length_encode_pos v
    simp only [List.length_cons, encodeAll_cons, List.length_append]
    omega

lemma length_encodeAll_le (vs : List Int32) : (encodeAll vs).length ≤ 5 * vs.length := by
  induction vs with
  | nil => simp
  | cons v vs ih =>
    have hv := length_encode_le v
    simp only [List.length_cons, encodeAll_cons, List.length_append]
    omega

lemma readAll_encodeAll (vs : List Int32) (rest : Bytes) :
    readAll vs.length (encodeAll vs ++ rest) = (vs, .ok rest) := by
  induction vs with
  | nil => rfl
  | cons v vs ih =>
    rw [List.length_cons, encodeAll_cons, List.append_assoc, readAll, read_encode]
    simp only [ih]

/-- A code of at most `allowed` bytes: the high bit is set on every byte but the last, and the last
byte that is allowed has four bits left. -/
structure IsCode (allowed : Nat) (code : Bytes) : Prop where
  nonempty : code ≠ []
  length_le : code.length ≤ allowed
  continued : ∀ b ∈ code.dropLast, 128 ≤ b.toNat
  ended : ∀ b ∈ code.getLast?, b.toNat < 128
  fits : ∀ b ∈ code[allowed - 1]?, b.toNat ≤ 15

def number : Bytes → Nat
  | [] => 0
  | b :: bs => b.toNat % 128 + 128 * number bs

def value (code : Bytes) : Int32 := (UInt32.ofNat (number code)).toInt32

lemma isCode_singleton {more : Nat} {b : UInt8} :
    IsCode (more + 1) [b] ↔ b.toNat < 128 ∧ (more = 0 → b.toNat ≤ 15) := by
  constructor
  · intro h
    refine ⟨h.ended b rfl, ?_⟩
    rintro rfl
    exact h.fits b rfl
  · rintro ⟨hb, hfit⟩
    refine ⟨by simp, by simp, by simp, by simpa using hb, fun c hc => ?_⟩
    cases more with
    | zero =>
      obtain rfl : b = c := by simpa using hc
      exact hfit rfl
    | succ more => simp at hc

lemma isCode_cons_cons {more : Nat} {b c : UInt8} {bs : Bytes} :
    IsCode (more + 1) (b :: c :: bs) ↔ 128 ≤ b.toNat ∧ IsCode more (c :: bs) := by
  cases more with
  | zero =>
    constructor
    · intro h
      simpa using h.length_le
    · rintro ⟨-, h⟩
      simpa using h.length_le
  | succ more =>
    constructor
    · intro h
      refine ⟨h.continued b (by simp), by simp, ?_, fun d hd => ?_, h.ended, h.fits⟩
      · simpa using h.length_le
      · exact h.continued d (by simp [List.dropLast_cons_cons, hd])
    · rintro ⟨hb, h⟩
      refine ⟨by simp, ?_, fun d hd => ?_, h.ended, h.fits⟩
      · simpa using h.length_le
      · rw [List.dropLast_cons_cons] at hd
        rcases List.mem_cons.1 hd with rfl | hd
        · exact hb
        · exact h.continued d hd

lemma readNat_code {allowed : Nat} (rest : Bytes) : ∀ {code : Bytes}, IsCode allowed code →
    readNat allowed (code ++ rest) = .ok (number code, rest) := by
  induction allowed with
  | zero =>
    intro code h
    exact absurd (List.length_eq_zero_iff.1 (Nat.le_zero.1 h.length_le)) h.nonempty
  | succ more ih =>
    intro code h
    match code, h with
    | [], h => exact absurd rfl h.nonempty
    | [b], h =>
      obtain ⟨hb, hfit⟩ := isCode_singleton.1 h
      have hno : ¬ (more = 0 ∧ 15 < b.toNat % 128) := fun ⟨h0, hlarge⟩ => by
        have := hfit h0
        omega
      simp only [List.cons_append, List.nil_append, readNat, if_neg hno, if_pos hb, number]
      rfl
    | b :: c :: bs, h =>
      obtain ⟨hb, hrest⟩ := isCode_cons_cons.1 h
      have hmore : more ≠ 0 := by
        have := hrest.length_le
        rintro rfl
        simp at this
      have hread := ih hrest
      rw [List.cons_append, readNat]
      simp only [hread]
      rw [if_neg fun h0 => hmore h0.1, if_neg (Nat.not_lt.2 hb)]
      rfl

theorem readNat_eq_ok_iff {allowed : Nat} : ∀ {bs rest : Bytes} {n : Nat},
    readNat allowed bs = .ok (n, rest) ↔
      ∃ code, IsCode allowed code ∧ bs = code ++ rest ∧ number code = n := by
  induction allowed with
  | zero =>
    intro bs rest n
    constructor
    · intro h
      simp [readNat] at h
    · rintro ⟨code, h, -⟩
      exact absurd (List.length_eq_zero_iff.1 (Nat.le_zero.1 h.length_le)) h.nonempty
  | succ more ih =>
    intro bs rest n
    constructor
    · intro h
      cases bs with
      | nil => simp [readNat] at h
      | cons b bs =>
        simp only [readNat] at h
        split at h
        · cases h
        next hfit =>
          split at h
          next hlast =>
            obtain ⟨rfl, rfl⟩ : b.toNat % 128 = n ∧ bs = rest := by simpa using h
            refine ⟨[b], isCode_singleton.2 ⟨hlast, fun h0 => ?_⟩, rfl, rfl⟩
            have : ¬ 15 < b.toNat % 128 := fun hlarge => hfit ⟨h0, hlarge⟩
            omega
          next hlast =>
            split at h
            next high rest₁ hhigh =>
              obtain ⟨rfl, rfl⟩ : b.toNat % 128 + 128 * high = n ∧ rest₁ = rest := by simpa using h
              obtain ⟨code, hcode, rfl, rfl⟩ := ih.1 hhigh
              obtain ⟨c, code, rfl⟩ := List.exists_cons_of_ne_nil hcode.nonempty
              exact ⟨b :: c :: code, isCode_cons_cons.2 ⟨Nat.not_lt.1 hlast, hcode⟩, rfl, rfl⟩
            · cases h
    · rintro ⟨code, hcode, rfl, rfl⟩
      exact readNat_code rest hcode

lemma number_lt {more : Nat} : ∀ {code : Bytes}, IsCode (more + 1) code →
    number code < 16 * Nat.pow 128 more := by
  induction more with
  | zero =>
    intro code h
    match code, h with
    | [], h => exact absurd rfl h.nonempty
    | [b], h =>
      have hfit := (isCode_singleton.1 h).2 rfl
      change b.toNat % 128 + 128 * 0 < 16 * 1
      omega
    | b :: c :: bs, h => exact absurd (isCode_cons_cons.1 h).2.length_le (by simp)
  | succ more ih =>
    intro code h
    have hpow : Nat.pow 128 (more + 1) = Nat.pow 128 more * 128 := rfl
    match code, h with
    | [], h => exact absurd rfl h.nonempty
    | [b], h =>
      have hpos : 0 < Nat.pow 128 more := Nat.pow_pos (by decide)
      change b.toNat % 128 + 128 * 0 < _
      omega
    | b :: c :: bs, h =>
      have hhigh := ih (isCode_cons_cons.1 h).2
      change b.toNat % 128 + 128 * number (c :: bs) < _
      omega

lemma toNat_value {code : Bytes} (h : IsCode 5 code) : (value code).toUInt32.toNat = number code := by
  have hlt : number code < 4294967296 := number_lt h
  rw [value, UInt32.toUInt32_toInt32, UInt32.toNat_ofNat']
  exact Nat.mod_eq_of_lt hlt

lemma encodeNat_number {allowed : Nat} : ∀ {code : Bytes}, IsCode allowed code →
    (encodeNat (number code)).SameOrShorter code := by
  induction allowed with
  | zero =>
    intro code h
    exact absurd (List.length_eq_zero_iff.1 (Nat.le_zero.1 h.length_le)) h.nonempty
  | succ more ih =>
    intro code h
    match code, h with
    | [], h => exact absurd rfl h.nonempty
    | [b], h =>
      have hb := (isCode_singleton.1 h).1
      have hn : number [b] = b.toNat := Nat.mod_eq_of_lt hb
      rw [hn, encodeNat, if_pos hb, UInt8.ofNat_toNat]
      exact .inl rfl
    | b :: c :: bs, h =>
      obtain ⟨hb, hrest⟩ := isCode_cons_cons.1 h
      have hbyte := b.toNat_lt
      have hn : number (b :: c :: bs) = b.toNat % 128 + 128 * number (c :: bs) := rfl
      rw [encodeNat]
      split
      · exact .inr (by simp)
      · have hlow : 128 + number (b :: c :: bs) % 128 = b.toNat := by omega
        have hhigh : number (b :: c :: bs) / 128 = number (c :: bs) := by omega
        rw [hlow, hhigh, UInt8.ofNat_toNat]
        exact (ih hrest).cons b

lemma encode_value {code : Bytes} (h : IsCode 5 code) : (encode (value code)).SameOrShorter code := by
  rw [encode, toNat_value h]
  exact encodeNat_number h

lemma encodeAll_values {codes : List Bytes} (h : ∀ code ∈ codes, IsCode 5 code) :
    (encodeAll (codes.map value)).SameOrShorter codes.flatten := by
  induction codes with
  | nil => exact .inl rfl
  | cons code codes ih =>
    exact (encode_value (h code (by simp))).append (ih fun c hc => h c (by simp [hc]))

theorem read_eq_ok_iff {bs rest : Bytes} {v : Int32} : read bs = .ok (v, rest) ↔
    ∃ code, IsCode 5 code ∧ bs = code ++ rest ∧ value code = v := by
  rw [read]
  constructor
  · intro h
    split at h
    next n rest₁ hn =>
      obtain ⟨rfl, rfl⟩ : (UInt32.ofNat n).toInt32 = v ∧ rest₁ = rest := by simpa using h
      obtain ⟨code, hcode, rfl, rfl⟩ := readNat_eq_ok_iff.1 hn
      exact ⟨code, hcode, rfl, rfl⟩
    · cases h
  · rintro ⟨code, hcode, rfl, rfl⟩
    rw [readNat_code rest hcode, value]

theorem readAll_eq_ok_iff {count : Nat} : ∀ {bs rest : Bytes} {vs : List Int32},
    readAll count bs = (vs, .ok rest) ↔
      ∃ codes : List Bytes, codes.length = count ∧ (∀ code ∈ codes, IsCode 5 code) ∧
        codes.map value = vs ∧ bs = codes.flatten ++ rest := by
  induction count with
  | zero =>
    intro bs rest vs
    constructor
    · intro h
      obtain ⟨rfl, rfl⟩ : [] = vs ∧ bs = rest := by simpa [readAll] using h
      exact ⟨[], by simp⟩
    · rintro ⟨codes, hlen, -, rfl, rfl⟩
      obtain rfl := List.length_eq_zero_iff.1 hlen
      rfl
  | succ count ih =>
    intro bs rest vs
    rw [readAll]
    constructor
    · intro h
      split at h
      · simp at h
      next v rest₁ hv =>
        rcases hall : readAll count rest₁ with ⟨us, outcome⟩
        rw [hall] at h
        obtain ⟨rfl, rfl⟩ : v :: us = vs ∧ outcome = .ok rest := by simpa using h
        obtain ⟨code, hcode, rfl, rfl⟩ := read_eq_ok_iff.1 hv
        obtain ⟨codes, rfl, hcodes, rfl, rfl⟩ := ih.1 hall
        exact ⟨code :: codes, rfl, by simpa using ⟨hcode, hcodes⟩, rfl, by simp⟩
    · rintro ⟨codes, hlen, hcodes, rfl, rfl⟩
      obtain ⟨code, codes, rfl⟩ := List.exists_cons_of_length_eq_add_one hlen
      have hread : read ((code :: codes).flatten ++ rest) = .ok (value code, codes.flatten ++ rest) :=
        read_eq_ok_iff.2 ⟨code, hcodes code (by simp), by simp, rfl⟩
      have hall : readAll count (codes.flatten ++ rest) = (codes.map value, .ok rest) :=
        ih.2 ⟨codes, by simpa using hlen, fun c hc => hcodes c (by simp [hc]), rfl, rfl⟩
      rw [hread]
      simp only [hall, List.map_cons]

lemma length_le_flatten {codes : List Bytes} (h : ∀ code ∈ codes, IsCode 5 code) :
    codes.length ≤ codes.flatten.length := by
  induction codes with
  | nil => simp
  | cons code codes ih =>
    have hpos : 0 < code.length := List.length_pos_iff.2 (h code (by simp)).nonempty
    have hrest := ih fun c hc => h c (by simp [hc])
    simp only [List.length_cons, List.flatten_cons, List.length_append]
    omega

end ChunkStore.Varbyte
