import ChunkStore.Proofs.Codec

namespace ChunkStore

structure Region where
  codec : Codec
  values : List Int32

namespace Region

def bytes (r : Region) : Bytes := r.codec.compress r.values

def shape (r : Region) : Codec × Nat := (r.codec, r.values.length)

def writeAll (buffer : Bytes) : List Region → Bytes
  | [] => buffer
  | r :: rs => writeAll (buffer ++ r.bytes) rs

structure Progress where
  cursor : Nat
  out : List Int32
  consumed : List Nat

def readFrom (buffer : Bytes) (p : Progress) : List (Codec × Nat) → Except Error Progress
  | [] => .ok p
  | (codec, count) :: shapes =>
    match codec.decompress (buffer.drop p.cursor) count p.out with
    | (out, .ok n) => readFrom buffer ⟨p.cursor + n, out, p.consumed ++ [n]⟩ shapes
    | (_, .error e) => .error e

lemma writeAll_eq (regions : List Region) : ∀ front : Bytes,
    writeAll front regions = front ++ regions.flatMap bytes := by
  induction regions with
  | nil =>
    intro front
    simp [writeAll]
  | cons r rs ih =>
    intro front
    rw [writeAll, ih, List.flatMap_cons, List.append_assoc]

lemma readFrom_flatMap (tail : Bytes) (regions : List Region) :
    ∀ (front : Bytes) (out : List Int32) (consumed : List Nat),
      readFrom (front ++ (regions.flatMap bytes ++ tail)) ⟨front.length, out, consumed⟩
          (regions.map shape) =
        .ok ⟨front.length + (regions.flatMap bytes).length, out ++ regions.flatMap values,
          consumed ++ regions.map fun r => r.bytes.length⟩ := by
  induction regions with
  | nil =>
    intro front out consumed
    simp [readFrom]
  | cons r rs ih =>
    intro front out consumed
    have hread := r.codec.decompress_compress_append r.values out (rs.flatMap bytes ++ tail)
    have hrest := ih (front ++ r.bytes) (out ++ r.values) (consumed ++ [r.bytes.length])
    have hbuffer : front ++ ((r :: rs).flatMap bytes ++ tail) =
        front ++ r.bytes ++ (rs.flatMap bytes ++ tail) := by
      simp only [List.flatMap_cons, List.append_assoc]
    have hdrop : (front ++ ((r :: rs).flatMap bytes ++ tail)).drop front.length =
        r.codec.compress r.values ++ (rs.flatMap bytes ++ tail) := by
      rw [List.drop_left, List.flatMap_cons, List.append_assoc]
      rfl
    rw [List.map_cons, shape, readFrom]
    simp only [hdrop, hread]
    rw [List.length_append] at hrest
    rw [hbuffer]
    exact hrest.trans (by simp [Nat.add_assoc])

theorem readFrom_writeAll (regions : List Region) (front tail : Bytes) (out : List Int32) :
    let buffer := writeAll front regions
    readFrom (buffer ++ tail) ⟨front.length, out, []⟩ (regions.map shape) =
        .ok ⟨buffer.length, out ++ regions.flatMap values, regions.map fun r => r.bytes.length⟩ ∧
      buffer = front ++ regions.flatMap bytes ∧ (buffer ++ tail).drop buffer.length = tail ∧
      ∀ r : Region, r.values.length ≤ r.bytes.length ∧ r.bytes.length ≤ 5 * r.values.length := by
  intro buffer
  have hbuffer : buffer = front ++ regions.flatMap bytes := writeAll_eq regions front
  refine ⟨?_, hbuffer, List.drop_left, fun r => ⟨?_, ?_⟩⟩
  · rw [hbuffer, List.append_assoc, readFrom_flatMap, List.length_append, List.nil_append]
  · exact r.codec.length_le_compress r.values
  · exact r.codec.length_compress_le r.values

end Region
end ChunkStore
