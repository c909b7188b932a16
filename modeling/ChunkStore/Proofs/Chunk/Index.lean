import ChunkStore.Chunk.Builder
import ChunkStore.Proofs.Codec
import Mathlib.Data.List.Basic

namespace ChunkStore

namespace ChunkIndex

open ChunkBuilder (maxIndexed)

lemma toNatClampNeg_ofNat {n : Nat} (h : n ≤ maxIndexed) : (Int32.ofNat n).toNatClampNeg = n :=
  Int32.toNatClampNeg_ofNat_of_lt (by simp only [maxIndexed] at h; omega)

lemma not_ofNat_lt_zero {n : Nat} (h : n ≤ maxIndexed) : ¬ Int32.ofNat n < 0 := by
  have hn : (Int32.ofNat n).toInt = n := Int32.toInt_ofNat_of_lt (by simp only [maxIndexed] at h; omega)
  rw [Int32.lt_iff_toInt_lt, hn]
  simp

lemma sizes_map_ofNat (ns : List Nat) (h : ∀ n ∈ ns, n ≤ maxIndexed) :
    sizes (ns.map Int32.ofNat) = .ok ns := by
  induction ns with
  | nil => rfl
  | cons n ns ih =>
    have hn := h n (by simp)
    rw [List.map_cons, sizes, if_neg (not_ofNat_lt_zero hn), ih fun m hm => h m (by simp [hm])]
    simp only [toNatClampNeg_ofNat hn]

lemma offsets_map_ofNat (region : Nat) (os : List Nat) : ∀ previous,
    (∀ o ∈ os, o ≤ maxIndexed) → (∀ o ∈ os, o ≤ region) → (previous :: os).Pairwise (· ≤ ·) →
    offsets region previous (os.map Int32.ofNat) = .ok os := by
  induction os with
  | nil => intros; rfl
  | cons o os ih =>
    intro previous hmax hregion hsorted
    obtain ⟨hp, hs⟩ := List.pairwise_cons.1 hsorted
    have ho := hmax o (by simp)
    rw [List.map_cons, offsets]
    simp only [toNatClampNeg_ofNat ho]
    rw [if_neg (not_ofNat_lt_zero ho), if_neg (by have := hregion o (by simp); omega),
      if_neg (by have := hp o (by simp); omega),
      ih o (fun m hm => hmax m (by simp [hm])) (fun m hm => hregion m (by simp [hm])) hs]

lemma decode_eq_ok {payload rest fields : Bytes} {count : Nat} {rawOffsets rawSizes : List Int32}
    {os ns : List Nat} (hoffsets : Codec.delta.split payload count = .ok (rawOffsets, rest))
    (hsizes : Codec.plain.split rest count = .ok (rawSizes, fields))
    (hos : offsets fields.length 0 rawOffsets = .ok os) (hns : sizes rawSizes = .ok ns) :
    decode payload count = .ok ⟨payload.length - fields.length,
      layOut (payload.length - fields.length) payload.length os ns⟩ := by
  rw [decode, hoffsets]
  change (Codec.plain.split rest count >>= fun _ => _) = _
  rw [hsizes]
  change (offsets fields.length 0 rawOffsets >>= fun _ => _) = _
  rw [hos]
  change (sizes rawSizes >>= fun _ => _) = _
  rw [hns]
  rfl

lemma decode_encode_append {os ns : List Nat} (data : Bytes) (hlen : os.length = ns.length)
    (hsorted : os.Pairwise (· ≤ ·)) (hregion : ∀ o ∈ os, o ≤ data.length)
    (hos : ∀ o ∈ os, o ≤ maxIndexed) (hns : ∀ n ∈ ns, n ≤ maxIndexed) :
    decode (encode os ns ++ data) ns.length =
      .ok ⟨(encode os ns).length, layOut (encode os ns).length (encode os ns ++ data).length os ns⟩ := by
  have hoffsets := Codec.delta.split_compress_append (os.map Int32.ofNat)
    (Codec.plain.compress (ns.map Int32.ofNat) ++ data)
  have hsizes := Codec.plain.split_compress_append (ns.map Int32.ofNat) data
  rw [List.length_map, hlen, ← List.append_assoc] at hoffsets
  rw [List.length_map] at hsizes
  have hread := offsets_map_ofNat data.length os 0 hos hregion (List.pairwise_cons.2 ⟨by simp, hsorted⟩)
  have hstart : (encode os ns ++ data).length - data.length = (encode os ns).length := by simp
  rw [← hstart]
  exact decode_eq_ok hoffsets hsizes hread (sizes_map_ofNat ns hns)

end ChunkIndex

namespace ChunkBuilder

@[simp] lemma length_offsets (position : Nat) (fs : List (Option EncodedField)) :
    (offsets position fs).length = fs.length := by
  induction fs generalizing position with
  | nil => rfl
  | cons f fs ih => simp [offsets, ih]

lemma offsets_concat (position : Nat) (gs : List (Option EncodedField)) (f : Option EncodedField) :
    offsets position (gs ++ [f]) = offsets position gs ++ [position + (gs.flatMap dataOf).length] := by
  induction gs generalizing position with
  | nil => simp [offsets]
  | cons g gs ih => simp [offsets, ih, Nat.add_assoc]

lemma head?_offsets (position : Nat) (fs : List (Option EncodedField)) :
    (offsets position fs).head? = if fs = [] then none else some position := by
  cases fs <;> simp [offsets]

lemma le_of_mem_offsets {fs : List (Option EncodedField)} : ∀ {position o : Nat},
    o ∈ offsets position fs → position ≤ o ∧ o ≤ position + (fs.flatMap dataOf).length := by
  induction fs with
  | nil => simp [offsets]
  | cons f fs ih =>
    intro position o ho
    rw [List.flatMap_cons, List.length_append]
    rcases List.mem_cons.1 ho with rfl | ho
    · omega
    · have := ih ho
      omega

lemma pairwise_offsets (position : Nat) (fs : List (Option EncodedField)) :
    (offsets position fs).Pairwise (· ≤ ·) := by
  induction fs generalizing position with
  | nil => exact .nil
  | cons f fs ih =>
    refine List.pairwise_cons.2 ⟨fun o ho => ?_, ih _⟩
    have := (le_of_mem_offsets ho).1
    omega

lemma slice_append (front middle back : Bytes) :
    (front ++ (middle ++ back)).slice front.length (front.length + middle.length) = middle := by
  simp [Bytes.slice]

/-- `before` are the bytes of the fields that come first. -/
lemma span_of_field (front : Bytes) : ∀ (fs : List (Option EncodedField)) (before : Bytes) {i : Nat}
    {f : Option EncodedField}, fs[i]? = some f →
    ∃ s, (ChunkIndex.layOut front.length (front ++ (before ++ fs.flatMap dataOf)).length
        (offsets before.length fs) (fs.map sizeOf))[i]? = some s ∧
      (front ++ (before ++ fs.flatMap dataOf)).slice s.start s.stop = dataOf f ∧ s.size = sizeOf f := by
  intro fs
  induction fs with
  | nil => simp
  | cons g gs ih =>
    intro before i f hf
    have hnext : ((offsets (before.length + (dataOf g).length) gs).head?.map (front.length + ·)).getD
        (front ++ (before ++ (dataOf g ++ gs.flatMap dataOf))).length =
        (front ++ before).length + (dataOf g).length := by
      rw [head?_offsets]
      split
      next hgs => simp [hgs, Nat.add_assoc]
      next => simp [Nat.add_assoc]
    rw [List.flatMap_cons, List.map_cons, offsets, ChunkIndex.layOut, hnext]
    cases i with
    | zero =>
      obtain rfl : g = f := by simpa using hf
      refine ⟨_, rfl, ?_, rfl⟩
      have hcut := slice_append (front ++ before) (dataOf g) (gs.flatMap dataOf)
      simpa only [List.append_assoc, List.length_append] using hcut
    | succ i =>
      have hrest := ih (before ++ dataOf g) (by simpa using hf)
      simpa only [List.getElem?_cons_succ, List.length_append, List.append_assoc] using hrest

end ChunkBuilder
end ChunkStore
