import ChunkStore.Proofs.Codec

/-!
Why reading stops: behind the codes that could be read, the bytes end inside a code, or the last byte
that a code may have holds too many bits or is not its last.
-/

namespace ChunkStore

namespace Varbyte

inductive Flawed (allowed : Nat) : Bytes → Flaw → Prop
  | truncated {bs : Bytes} (short : bs.length < allowed) (continued : ∀ b ∈ bs, 128 ≤ b.toNat) :
    Flawed allowed bs .truncated
  | overflow (front : Bytes) {rest : Bytes} {last : UInt8} (full : front.length + 1 = allowed)
    (continued : ∀ b ∈ front, 128 ≤ b.toNat) (large : 15 < last.toNat % 128) :
    Flawed allowed (front ++ last :: rest) .overflow
  | tooLong (front : Bytes) {rest : Bytes} {last : UInt8} (full : front.length + 1 = allowed)
    (continued : ∀ b ∈ front, 128 ≤ b.toNat) (fits : last.toNat % 128 ≤ 15)
    (unended : 128 ≤ last.toNat) : Flawed allowed (front ++ last :: rest) .tooLong

lemma flawed_nil {more : Nat} {flaw : Flaw} : Flawed (more + 1) [] flaw ↔ flaw = .truncated := by
  constructor
  · intro h
    generalize hbs : ([] : Bytes) = bs at h
    cases h with
    | truncated => rfl
    | overflow => simp at hbs
    | tooLong => simp at hbs
  · rintro rfl
    exact .truncated (by simp) (by simp)

lemma flawed_last {b : UInt8} {bs : Bytes} {flaw : Flaw} : Flawed 1 (b :: bs) flaw ↔
    (15 < b.toNat % 128 ∧ flaw = .overflow) ∨
      (b.toNat % 128 ≤ 15 ∧ 128 ≤ b.toNat ∧ flaw = .tooLong) := by
  constructor
  · intro h
    generalize hbs : b :: bs = whole at h
    cases h with
    | truncated short =>
      subst hbs
      simp at short
    | overflow front full _ large =>
      obtain rfl := List.length_eq_zero_iff.1 (Nat.succ.inj full)
      obtain ⟨rfl, rfl⟩ := List.cons.inj hbs
      exact .inl ⟨large, rfl⟩
    | tooLong front full _ fits unended =>
      obtain rfl := List.length_eq_zero_iff.1 (Nat.succ.inj full)
      obtain ⟨rfl, rfl⟩ := List.cons.inj hbs
      exact .inr ⟨fits, unended, rfl⟩
  · rintro (⟨large, rfl⟩ | ⟨fits, unended, rfl⟩)
    · exact .overflow [] rfl (by simp) large
    · exact .tooLong [] rfl (by simp) fits unended

lemma flawed_cons {more : Nat} {b : UInt8} {bs : Bytes} {flaw : Flaw} :
    Flawed (more + 2) (b :: bs) flaw ↔ 128 ≤ b.toNat ∧ Flawed (more + 1) bs flaw := by
  constructor
  · intro h
    generalize hbs : b :: bs = whole at h
    cases h with
    | truncated short continued =>
      subst hbs
      obtain ⟨hb, continued⟩ := List.forall_mem_cons.1 continued
      exact ⟨hb, .truncated (Nat.lt_of_succ_lt_succ short) continued⟩
    | overflow front full continued large =>
      obtain ⟨c, front, rfl⟩ := List.exists_cons_of_length_eq_add_one (Nat.succ.inj full)
      obtain ⟨rfl, rfl⟩ := List.cons.inj hbs
      obtain ⟨hb, continued⟩ := List.forall_mem_cons.1 continued
      exact ⟨hb, .overflow front (Nat.succ.inj full) continued large⟩
    | tooLong front full continued fits unended =>
      obtain ⟨c, front, rfl⟩ := List.exists_cons_of_length_eq_add_one (Nat.succ.inj full)
      obtain ⟨rfl, rfl⟩ := List.cons.inj hbs
      obtain ⟨hb, continued⟩ := List.forall_mem_cons.1 continued
      exact ⟨hb, .tooLong front (Nat.succ.inj full) continued fits unended⟩
  · rintro ⟨hb, h⟩
    cases h with
    | truncated short continued =>
      exact .truncated (Nat.succ_lt_succ short) (List.forall_mem_cons.2 ⟨hb, continued⟩)
    | overflow front full continued large =>
      exact .overflow (b :: front) (congrArg Nat.succ full)
        (List.forall_mem_cons.2 ⟨hb, continued⟩) large
    | tooLong front full continued fits unended =>
      exact .tooLong (b :: front) (congrArg Nat.succ full)
        (List.forall_mem_cons.2 ⟨hb, continued⟩) fits unended

theorem readNat_eq_error_iff {more : Nat} : ∀ {bs : Bytes} {flaw : Flaw},
    readNat (more + 1) bs = .error flaw ↔ Flawed (more + 1) bs flaw := by
  induction more with
  | zero =>
    intro bs flaw
    cases bs with
    | nil => simp [readNat, flawed_nil, eq_comm]
    | cons b bs =>
      rw [flawed_last]
      simp only [readNat, true_and]
      split
      next large => simp [large, Nat.not_le.2 large, eq_comm]
      next fits =>
        have fits' := Nat.not_lt.1 fits
        split
        next ended => simp [fits, Nat.not_le.2 ended]
        next unended => simp [fits, fits', Nat.not_lt.1 unended, eq_comm]
  | succ more ih =>
    intro bs flaw
    cases bs with
    | nil => simp [readNat, flawed_nil, eq_comm]
    | cons b bs =>
      rw [flawed_cons, ← ih, readNat]
      simp only [Nat.add_eq_zero_iff, Nat.succ_ne_self, and_false, false_and, if_false]
      split
      next ended => simp [Nat.not_le.2 ended]
      next unended =>
        cases readNat (more + 1) bs with
        | ok p => simp
        | error flaw' => simp [Nat.not_lt.1 unended]

theorem read_eq_error_iff {bs : Bytes} {flaw : Flaw} : read bs = .error flaw ↔ Flawed 5 bs flaw := by
  rw [← readNat_eq_error_iff, read]
  cases readNat 5 bs <;> simp

theorem readAll_eq_error_iff {count : Nat} : ∀ {bs : Bytes} {vs : List Int32} {flaw : Flaw},
    readAll count bs = (vs, .error flaw) ↔
      ∃ (codes : List Bytes) (rest : Bytes), codes.length < count ∧
        (∀ code ∈ codes, IsCode 5 code) ∧ codes.map value = vs ∧ bs = codes.flatten ++ rest ∧
          Flawed 5 rest flaw := by
  induction count with
  | zero =>
    intro bs vs flaw
    simp [readAll]
  | succ count ih =>
    intro bs vs flaw
    rw [readAll]
    constructor
    · intro h
      split at h
      next flaw' hflaw =>
        obtain ⟨rfl, rfl⟩ : [] = vs ∧ flaw' = flaw := by simpa using h
        exact ⟨[], bs, by simp, by simp, rfl, rfl, read_eq_error_iff.1 hflaw⟩
      next v rest hv =>
        rcases hall : readAll count rest with ⟨us, outcome⟩
        rw [hall] at h
        obtain ⟨rfl, rfl⟩ : v :: us = vs ∧ outcome = .error flaw := by simpa using h
        obtain ⟨code, hcode, rfl, rfl⟩ := read_eq_ok_iff.1 hv
        obtain ⟨codes, rest, hlen, hcodes, rfl, rfl, hflaw⟩ := ih.1 hall
        exact ⟨code :: codes, rest, Nat.succ_lt_succ hlen, List.forall_mem_cons.2 ⟨hcode, hcodes⟩,
          rfl, by simp, hflaw⟩
    · rintro ⟨codes, rest, hlen, hcodes, rfl, rfl, hflaw⟩
      cases codes with
      | nil =>
        have hread : read ([] ++ rest) = .error flaw := read_eq_error_iff.2 hflaw
        rw [List.flatten_nil, hread]
        rfl
      | cons code codes =>
        obtain ⟨hcode, hcodes⟩ := List.forall_mem_cons.1 hcodes
        have hread : read ((code :: codes).flatten ++ rest) =
            .ok (value code, codes.flatten ++ rest) :=
          read_eq_ok_iff.2 ⟨code, hcode, by simp, rfl⟩
        have hall : readAll count (codes.flatten ++ rest) = (codes.map value, .error flaw) :=
          ih.2 ⟨codes, rest, Nat.lt_of_succ_lt_succ hlen, hcodes, rfl, rfl, hflaw⟩
        rw [hread]
        simp only [hall, List.map_cons]

end Varbyte

namespace Codec

theorem decompress_eq_error_iff {codec : Codec} {input : Bytes} {count : Nat} {out vs : List Int32}
    {e : Error} : codec.decompress input count out = (vs, .error e) ↔
      (input.length < count ∧ vs = out ∧ e = .corrupt (.tooFewBytes count input.length)) ∨
        (count ≤ input.length ∧ ∃ (codes : List Bytes) (rest : Bytes) (flaw : Varbyte.Flaw),
          codes.length < count ∧ (∀ code ∈ codes, Varbyte.IsCode 5 code) ∧
            input = codes.flatten ++ rest ∧ Varbyte.Flawed 5 rest flaw ∧
              vs = out ++ codes.map Varbyte.value ∧ e = .corrupt (corruption input flaw)) := by
  rw [decompress]
  split
  next hfew =>
    simp only [Prod.mk.injEq, Except.error.injEq, hfew, true_and, Nat.not_le.2 hfew, false_and,
      or_false, eq_comm]
  next henough =>
    simp only [henough, false_and, false_or, Nat.not_lt.1 henough, true_and]
    constructor
    · intro h
      split at h
      · simp at h
      next us flaw hread =>
        obtain ⟨codes, rest, hlen, hcodes, rfl, hinput, hflaw⟩ := Varbyte.readAll_eq_error_iff.1 hread
        obtain ⟨rfl, he⟩ := Prod.mk.inj h
        exact ⟨codes, rest, flaw, hlen, hcodes, hinput, hflaw, rfl, (Except.error.inj he).symm⟩
    · rintro ⟨codes, rest, flaw, hlen, hcodes, hinput, hflaw, rfl, rfl⟩
      rw [Varbyte.readAll_eq_error_iff.2 ⟨codes, rest, hlen, hcodes, rfl, hinput, hflaw⟩]

end Codec
end ChunkStore
