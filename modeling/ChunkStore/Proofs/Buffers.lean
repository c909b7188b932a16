import ChunkStore.Buffers
import ChunkStore.Proofs.Attempt
import ChunkStore.Proofs.Flaws

/-!
Decompressing and compressing in place come down to appending, in success and in failure: of what is
there already nothing is changed and nothing is read.
-/

namespace ChunkStore

namespace Codec

lemma pushCodes_run {input : Bytes} (count : Nat) : ∀ {bs : Bytes} (out : List Int32), bs <:+ input →
    pushCodes input count (input.length - bs.length) out =
      match Varbyte.readAll count bs with
      | (vs, .ok rest) => .ok (input.length - rest.length) (out ++ vs)
      | (vs, .error flaw) => .error (.corrupt (corruption input flaw)) (out ++ vs) := by
  induction count with
  | zero =>
    intro bs out _
    simp [pushCodes, Varbyte.readAll]
  | succ count ih =>
    intro bs out hbs
    rw [pushCodes, ← List.suffix_iff_eq_drop.1 hbs, Varbyte.readAll]
    cases hread : Varbyte.read bs with
    | error flaw => simp
    | ok next =>
      obtain ⟨v, rest⟩ := next
      obtain ⟨code, -, rfl, -⟩ := Varbyte.read_eq_ok_iff.1 hread
      simp only [ih (out ++ [v]) ((List.suffix_append code rest).trans hbs)]
      rcases Varbyte.readAll count rest with ⟨vs, rest | flaw⟩ <;> simp

lemma pushPlain_eq (input : Bytes) (count : Nat) (out : List Int32) :
    plain.decompress input count out =
      (Attempt.state (pushPlain input count out), Attempt.outcome (pushPlain input count out)) := by
  rw [decompress, pushPlain]
  split
  · rfl
  · have hrun := pushCodes_run count out (List.suffix_refl input)
    rw [Nat.sub_self] at hrun
    rw [hrun]
    rcases Varbyte.readAll count input with ⟨vs, rest | flaw⟩ <;> rfl

lemma addPrevious_append (front vs : List Int32) (v w : Int32) :
    addPrevious (front ++ v :: w :: vs) (front.length + 1) = front ++ v :: (v + w) :: vs := by
  simp [addPrevious, Int32.add_comm]

lemma foldl_addPrevious (vs : List Int32) : ∀ (front : List Int32) (v : Int32),
    (List.range' (front.length + 1) vs.length).foldl addPrevious (front ++ v :: vs) =
      front ++ v :: sums v vs := by
  induction vs with
  | nil =>
    intro front v
    rfl
  | cons w vs ih =>
    intro front v
    -- `front` is summed up already, and `v` is the sum that the next element needs
    have hnext := ih (front ++ [v]) (v + w)
    rw [List.length_append, List.length_singleton, List.append_assoc, List.append_assoc] at hnext
    rw [List.length_cons, List.range'_succ, List.foldl_cons, addPrevious_append]
    exact hnext

lemma sumFrom_append (out vs : List Int32) : sumFrom out.length (out ++ vs) = out ++ sums 0 vs := by
  cases vs with
  | nil => simp [sumFrom, sums]
  | cons v vs =>
    have hlen : (out ++ v :: vs).length - (out.length + 1) = vs.length := by
      rw [List.length_append, List.length_cons]
      omega
    rw [sumFrom, hlen, foldl_addPrevious, sums, Int32.zero_add]

theorem decompress_eq (codec : Codec) (input : Bytes) (count : Nat) (out : List Int32) :
    codec.decompress input count out =
      (Attempt.state (codec.decompressInto input count out),
        Attempt.outcome (codec.decompressInto input count out)) := by
  have hplain := pushPlain_eq input count out
  cases codec with
  | plain => exact hplain
  | delta =>
    simp only [decompressInto]
    cases hpush : pushPlain input count out with
    | ok n decoded =>
      rw [hpush] at hplain
      obtain ⟨codes, rest, hlen, hcodes, hinput, hn, hvs⟩ := decompress_eq_ok_iff.1 hplain
      rw [Attempt.state_ok] at hvs
      rw [← hvs]
      exact decompress_eq_ok_iff.2
        ⟨codes, rest, hlen, hcodes, hinput, hn, (sumFrom_append out (codes.map Varbyte.value)).symm⟩
    | error e decoded =>
      rw [hpush] at hplain
      exact decompress_eq_error_iff.2 (decompress_eq_error_iff.1 hplain)

lemma decompressInto_eq_ok_iff {codec : Codec} {input : Bytes} {count n : Nat}
    {out vs : List Int32} : codec.decompressInto input count out = .ok n vs ↔
      codec.decompress input count out = (vs, .ok n) := by
  rw [decompress_eq, Attempt.state_outcome_eq_ok_iff]

lemma decompressInto_eq_error_iff {codec : Codec} {input : Bytes} {count : Nat}
    {out vs : List Int32} {e : Error} : codec.decompressInto input count out = .error e vs ↔
      codec.decompress input count out = (vs, .error e) := by
  rw [decompress_eq, Attempt.state_outcome_eq_error_iff]

lemma decompressInto_append (codec : Codec) (input : Bytes) (count : Nat) (out : List Int32) :
    codec.decompressInto input count out =
      Attempt.mapState (out ++ ·) (codec.decompressInto input count []) := by
  cases h : codec.decompressInto input count [] with
  | ok n vs =>
    obtain ⟨codes, rest, hlen, hcodes, hinput, hn, rfl⟩ :=
      decompress_eq_ok_iff.1 (decompressInto_eq_ok_iff.1 h)
    exact decompressInto_eq_ok_iff.2
      (decompress_eq_ok_iff.2 ⟨codes, rest, hlen, hcodes, hinput, hn, rfl⟩)
  | error e vs =>
    refine decompressInto_eq_error_iff.2 (decompress_eq_error_iff.2 ?_)
    obtain ⟨hfew, rfl, rfl⟩ | ⟨henough, codes, rest, flaw, hlen, hcodes, hinput, hflaw, rfl, rfl⟩ :=
      decompress_eq_error_iff.1 (decompressInto_eq_error_iff.1 h)
    · exact .inl ⟨hfew, List.append_nil out, rfl⟩
    · exact .inr ⟨henough, codes, rest, flaw, hlen, hcodes, hinput, hflaw, rfl, rfl⟩

/-- Both codecs, for every input, count and list to append to. Sums are formed after the last code
only, so a failure leaves the values of the codes before it as they are written. -/
theorem decompressInto_exactly (codec : Codec) (input : Bytes) (count : Nat) (out : List Int32) :
    codec.decompressInto input count out =
        Attempt.mapState (out ++ ·) (codec.decompressInto input count []) ∧
      (∀ n vs, codec.decompressInto input count out = .ok n vs ↔
        ∃ (codes : List Bytes) (rest : Bytes), codes.length = count ∧
          (∀ code ∈ codes, Varbyte.IsCode 5 code) ∧ input = codes.flatten ++ rest ∧
            codes.flatten.length = n ∧ out ++ codec.restore (codes.map Varbyte.value) = vs) ∧
      (∀ n vs, codec.decompressInto input count out = .ok n vs →
        ∃ values, values.length = count ∧ vs = out ++ values) ∧
      ∀ e vs, codec.decompressInto input count out = .error e vs ↔
        (input.length < count ∧ vs = out ∧ e = .corrupt (.tooFewBytes count input.length)) ∨
          (count ≤ input.length ∧ ∃ (codes : List Bytes) (rest : Bytes) (flaw : Varbyte.Flaw),
            codes.length < count ∧ (∀ code ∈ codes, Varbyte.IsCode 5 code) ∧
              input = codes.flatten ++ rest ∧ Varbyte.Flawed 5 rest flaw ∧
                vs = out ++ codes.map Varbyte.value ∧ e = .corrupt (corruption input flaw)) := by
  refine ⟨decompressInto_append codec input count out, fun n vs => ?_, fun n vs h => ?_,
    fun e vs => ?_⟩
  · rw [decompressInto_eq_ok_iff, decompress_eq_ok_iff]
  · rw [decompressInto_eq_ok_iff, decompress_eq_ok_iff] at h
    obtain ⟨codes, rest, hlen, -, -, -, rfl⟩ := h
    exact ⟨codec.restore (codes.map Varbyte.value), by simpa using hlen, rfl⟩
  · rw [decompressInto_eq_error_iff, decompress_eq_error_iff]

theorem decompressInto_exactly_sample :
    delta.decompressInto [5, 3, 0x80] 3 [7] = .error (.corrupt (.codeTruncated 3)) [7, 5, 3] ∧
      ∃ values : List Int32, values.length = 2 ∧ [7, 5, 8] = [7] ++ values := by
  have hok : delta.decompressInto [5, 3, 0x80] 2 [7] = .ok 2 [7, 5, 8] := by rfl
  refine ⟨((decompressInto_exactly delta _ 3 _).2.2.2 _ _).2 (.inr ?_),
    (decompressInto_exactly delta _ 2 _).2.2.1 _ _ hok⟩
  have hcode (b : UInt8) (hb : b.toNat < 16) : Varbyte.IsCode 5 [b] :=
    Varbyte.isCode_singleton.2 ⟨by omega, by simp⟩
  refine ⟨by decide, [[5], [3]], [0x80], .truncated, by decide, ?_, rfl, ?_, rfl, rfl⟩
  · simp [hcode]
  · exact .truncated (by decide) (by simp)

end Codec
end ChunkStore
