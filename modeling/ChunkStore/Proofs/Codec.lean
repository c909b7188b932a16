import ChunkStore.Codec
import ChunkStore.Proofs.Varbyte

namespace ChunkStore.Codec

lemma sums_differences (previous : Int32) (vs : List Int32) :
    sums previous (differences previous vs) = vs := by
  induction vs generalizing previous with
  | nil => rfl
  | cons v vs ih =>
    have hv : previous + (v - previous) = v := by
      rw [Int32.add_comm, Int32.sub_add_cancel]
    simp only [differences, sums, hv, ih]

@[simp] lemma restore_prepare (codec : Codec) (vs : List Int32) :
    codec.restore (codec.prepare vs) = vs := by
  cases codec with
  | plain => rfl
  | delta => exact sums_differences 0 vs

lemma differences_sums (total : Int32) (vs : List Int32) :
    differences total (sums total vs) = vs := by
  induction vs generalizing total with
  | nil => rfl
  | cons v vs ih =>
    have hv : total + v - total = v := by
      rw [Int32.add_comm, Int32.add_sub_cancel]
    simp only [sums, differences, hv, ih]

@[simp] lemma prepare_restore (codec : Codec) (vs : List Int32) :
    codec.prepare (codec.restore vs) = vs := by
  cases codec with
  | plain => rfl
  | delta => exact differences_sums 0 vs

lemma sums_eq_scanl (total : Int32) (vs : List Int32) :
    sums total vs = (vs.scanl (· + ·) total).tail := by
  induction vs generalizing total with
  | nil => rfl
  | cons v vs ih =>
    rw [sums, ih]
    cases vs with
    | nil => rfl
    | cons w vs => simp [List.scanl_cons]

@[simp] lemma length_differences (previous : Int32) (vs : List Int32) :
    (differences previous vs).length = vs.length := by
  induction vs generalizing previous with
  | nil => rfl
  | cons v vs ih => simp [differences, ih]

@[simp] lemma length_prepare (codec : Codec) (vs : List Int32) :
    (codec.prepare vs).length = vs.length := by
  cases codec <;> simp [prepare]

lemma length_le_compress (codec : Codec) (vs : List Int32) :
    vs.length ≤ (codec.compress vs).length := by
  simpa [compress] using Varbyte.length_le_encodeAll (codec.prepare vs)

lemma length_compress_le (codec : Codec) (vs : List Int32) :
    (codec.compress vs).length ≤ 5 * vs.length := by
  simpa [compress] using Varbyte.length_encodeAll_le (codec.prepare vs)

lemma decompress_compress_append (codec : Codec) (vs out : List Int32) (rest : Bytes) :
    codec.decompress (codec.compress vs ++ rest) vs.length out =
      (out ++ vs, .ok (codec.compress vs).length) := by
  have hlen := codec.length_le_compress vs
  have hread : Varbyte.readAll vs.length (codec.compress vs ++ rest) =
      (codec.prepare vs, .ok rest) := by
    simpa [compress] using Varbyte.readAll_encodeAll (codec.prepare vs) rest
  rw [decompress, if_neg (by rw [List.length_append]; omega), hread]
  simp

lemma split_compress_append (codec : Codec) (vs : List Int32) (rest : Bytes) :
    codec.split (codec.compress vs ++ rest) vs.length = .ok (vs, rest) := by
  rw [split, decompress_compress_append]
  simp

lemma decompress_eq_ok_iff {codec : Codec} {input : Bytes} {count n : Nat} {out vs : List Int32} :
    codec.decompress input count out = (vs, .ok n) ↔ ∃ (codes : List Bytes) (rest : Bytes),
      codes.length = count ∧ (∀ code ∈ codes, Varbyte.IsCode 5 code) ∧ input = codes.flatten ++ rest ∧
        codes.flatten.length = n ∧ out ++ codec.restore (codes.map Varbyte.value) = vs := by
  rw [decompress]
  constructor
  · intro h
    split at h
    · simp at h
    · split at h
      next ws rest hread =>
        obtain ⟨codes, hlen, hcodes, rfl, rfl⟩ := Varbyte.readAll_eq_ok_iff.1 hread
        obtain ⟨rfl, hn⟩ := Prod.mk.inj h
        exact ⟨codes, rest, hlen, hcodes, rfl, by simpa using hn, rfl⟩
      · simp at h
  · rintro ⟨codes, rest, rfl, hcodes, rfl, rfl, rfl⟩
    have hle := Varbyte.length_le_flatten hcodes
    rw [if_neg (by rw [List.length_append]; omega),
      Varbyte.readAll_eq_ok_iff.2 ⟨codes, rfl, hcodes, rfl, rfl⟩]
    simp

lemma decompress_ok {codec : Codec} {input : Bytes} {count n : Nat} {out vs : List Int32}
    (h : codec.decompress input count out = (vs, .ok n)) :
    ∃ front rest, input = front ++ rest ∧ front.length = n ∧
      ∀ rest', codec.decompress (front ++ rest') count out = (vs, .ok n) := by
  obtain ⟨codes, rest, hlen, hcodes, hinput, hn, hvs⟩ := decompress_eq_ok_iff.1 h
  exact ⟨codes.flatten, rest, hinput, hn, fun rest' =>
    decompress_eq_ok_iff.2 ⟨codes, rest', hlen, hcodes, rfl, hn, hvs⟩⟩

lemma consumed_le {codec : Codec} {input : Bytes} {count n : Nat} {out vs : List Int32}
    (h : codec.decompress input count out = (vs, .ok n)) : n ≤ input.length := by
  obtain ⟨front, rest, rfl, rfl, -⟩ := decompress_ok h
  simp

lemma corrupt_of_decompress {codec : Codec} {input : Bytes} {count : Nat} {out vs : List Int32}
    {e : Error} (h : codec.decompress input count out = (vs, .error e)) : ∃ c, e = .corrupt c := by
  rw [decompress] at h
  split at h
  · exact ⟨_, (Except.error.inj (Prod.mk.inj h).2).symm⟩
  · split at h
    · simp at h
    · exact ⟨_, (Except.error.inj (Prod.mk.inj h).2).symm⟩

lemma split_ok_iff {codec : Codec} {input rest : Bytes} {count : Nat} {vs : List Int32} :
    codec.split input count = .ok (vs, rest) ↔
      ∃ n, codec.decompress input count [] = (vs, .ok n) ∧ input.drop n = rest := by
  rw [split]
  cases h : codec.decompress input count [] with
  | mk ws outcome =>
    cases outcome with
    | ok n => simp [and_assoc]
    | error e => simp

theorem split_eq_ok_iff {codec : Codec} {input rest : Bytes} {count : Nat} {vs : List Int32} :
    codec.split input count = .ok (vs, rest) ↔ ∃ codes : List Bytes, codes.length = count ∧
      (∀ code ∈ codes, Varbyte.IsCode 5 code) ∧ codec.restore (codes.map Varbyte.value) = vs ∧
        input = codes.flatten ++ rest := by
  rw [split_ok_iff]
  constructor
  · rintro ⟨n, h, rfl⟩
    obtain ⟨codes, rest, hlen, hcodes, rfl, rfl, hvs⟩ := decompress_eq_ok_iff.1 h
    exact ⟨codes, hlen, hcodes, by simpa using hvs, by simp⟩
  · rintro ⟨codes, hlen, hcodes, hvs, rfl⟩
    exact ⟨codes.flatten.length,
      decompress_eq_ok_iff.2 ⟨codes, rest, hlen, hcodes, rfl, rfl, by simpa using hvs⟩, by simp⟩

lemma split_ok {codec : Codec} {input rest : Bytes} {count : Nat} {vs : List Int32}
    (h : codec.split input count = .ok (vs, rest)) :
    ∃ front, input = front ++ rest ∧ ∀ rest', codec.split (front ++ rest') count = .ok (vs, rest') := by
  obtain ⟨codes, hlen, hcodes, hvs, hinput⟩ := split_eq_ok_iff.1 h
  exact ⟨codes.flatten, hinput, fun rest' => split_eq_ok_iff.2 ⟨codes, hlen, hcodes, hvs, rfl⟩⟩

lemma corrupt_of_split {codec : Codec} {input : Bytes} {count : Nat} {e : Error}
    (h : codec.split input count = .error e) : ∃ c, e = .corrupt c := by
  rw [split] at h
  split at h
  · cases h
  next hdecompress =>
    obtain rfl := Except.error.inj h
    exact corrupt_of_decompress hdecompress

lemma decompress_take_error {codec : Codec} {input : Bytes} {count n m : Nat}
    {out vs : List Int32} (h : codec.decompress input count out = (vs, .ok n)) (hm : m < n) :
    ∃ ws c, codec.decompress (input.take m) count out = (ws, .error (.corrupt c)) := by
  cases hpart : codec.decompress (input.take m) count out with
  | mk ws outcome =>
    cases outcome with
    | error e =>
      obtain ⟨c, rfl⟩ := corrupt_of_decompress hpart
      exact ⟨ws, c, rfl⟩
    | ok k =>
      obtain ⟨front, rest, hfront, hk, hread⟩ := decompress_ok hpart
      have hinput : input = front ++ (rest ++ input.drop m) := by
        rw [← List.append_assoc, ← hfront, List.take_append_drop]
      have hwhole : codec.decompress input count out = (ws, .ok k) := hinput ▸ hread _
      have hkn : k = n := by simpa using (Prod.mk.inj (hwhole.symm.trans h)).2
      have hkm := consumed_le hpart
      rw [List.length_take] at hkm
      omega

theorem decompress_exactly_codes (input : Bytes) (count : Nat) (out : List Int32) :
    (∀ vs n, plain.decompress input count out = (vs, .ok n) ↔ ∃ (codes : List Bytes) (rest : Bytes),
        codes.length = count ∧ (∀ code ∈ codes, Varbyte.IsCode 5 code) ∧
          input = codes.flatten ++ rest ∧ codes.flatten.length = n ∧
            out ++ codes.map Varbyte.value = vs) ∧
      ∀ vs n, plain.decompress input count out = (out ++ vs, .ok n) →
        (∀ tail, plain.decompress (input.take n ++ tail) count out = (out ++ vs, .ok n)) ∧
          (∀ m < n, ∃ ws c,
            plain.decompress (input.take m) count out = (ws, .error (.corrupt c))) ∧
            (plain.compress vs).SameOrShorter (input.take n) := by
  refine ⟨fun vs n => decompress_eq_ok_iff, fun vs n h => ⟨fun tail => ?_, fun m hm => ?_, ?_⟩⟩
  · obtain ⟨front, rest, rfl, rfl, hread⟩ := decompress_ok h
    rw [List.take_left]
    exact hread tail
  · exact decompress_take_error h hm
  · obtain ⟨codes, rest, -, hcodes, rfl, rfl, hvs⟩ := decompress_eq_ok_iff.1 h
    obtain rfl : codes.map Varbyte.value = vs := List.append_cancel_left hvs
    rw [List.take_left]
    exact Varbyte.encodeAll_values hcodes

theorem decompress_exactly_codes_sample :
    plain.decompress [0x81, 0x00, 0xff, 0xff, 0xff, 0xff, 0x0f, 0x80] 2 [7] = ([7, 1, -1], .ok 7) ∧
      (∀ tail, plain.decompress ([0x81, 0x00, 0xff, 0xff, 0xff, 0xff, 0x0f] ++ tail) 2 [7] =
        ([7, 1, -1], .ok 7)) ∧
      (∃ ws c, plain.decompress [0x81, 0x00, 0xff, 0xff, 0xff, 0xff] 2 [7] =
        (ws, .error (.corrupt c))) ∧
      (plain.compress [1, -1]).SameOrShorter [0x81, 0x00, 0xff, 0xff, 0xff, 0xff, 0x0f] := by
  have h : plain.decompress [0x81, 0x00, 0xff, 0xff, 0xff, 0xff, 0x0f, 0x80] 2 [7] =
      ([7] ++ [1, -1], .ok 7) := by rfl
  obtain ⟨htail, hpart, hshort⟩ := (decompress_exactly_codes _ _ _).2 _ _ h
  exact ⟨h, htail, hpart 6 (by decide), hshort⟩

end ChunkStore.Codec
