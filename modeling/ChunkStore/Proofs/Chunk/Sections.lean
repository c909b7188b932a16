import ChunkStore.Proofs.Chunk.Values

/-!
A payload whose index can be read, in its sections: a code for each offset, a code for each size,
and what stands behind them, cut where a field starts. The first cut may leave bytes in front of
the first field.
-/

namespace ChunkStore

/-- The pieces of `region` between ascending offsets, where `region` itself starts at `position`. -/
def Bytes.cutAt (position : Nat) : List Nat → Bytes → List Bytes
  | [], region => [region]
  | o :: os, region => region.take (o - position) :: cutAt o os (region.drop (o - position))

structure Sections where
  offsets : List Bytes
  sizes : List Bytes
  gap : Bytes
  fields : List Bytes

namespace Sections

open ChunkBuilder (maxIndexed)

def index (p : Sections) : Bytes := p.offsets.flatten ++ p.sizes.flatten

def pieces (p : Sections) : List Bytes := p.gap :: p.fields

def bytes (p : Sections) : Bytes := p.index ++ p.pieces.flatten

def counts (p : Sections) : List Nat := p.sizes.map fun code => (Varbyte.value code).toNatClampNeg

def step (piece : Bytes) : Int32 := Int32.ofNat piece.length

def spans (start : Nat) : List Bytes → List Nat → List Span
  | data :: fields, n :: ns =>
    ⟨start, start + data.length, n⟩ :: spans (start + data.length) fields ns
  | _, _ => []

def toIndex (p : Sections) : ChunkIndex :=
  ⟨p.index.length, spans (p.index.length + p.gap.length) p.fields p.counts⟩

structure Valid (p : Sections) : Prop where
  codes : ∀ code ∈ p.offsets ++ p.sizes, Varbyte.IsCode 5 code
  steps : p.offsets.map Varbyte.value = p.pieces.dropLast.map step
  pairs : p.sizes.length = p.fields.length
  sizes : ∀ code ∈ p.sizes, 0 ≤ Varbyte.value code
  fits : p.pieces.dropLast.flatten.length ≤ maxIndexed

end Sections

namespace Bytes

open ChunkBuilder (maxIndexed)

variable {position : Nat} {os : List Nat} {region : Bytes}

lemma exists_cutAt (position : Nat) (os : List Nat) (region : Bytes) :
    ∃ gap fields, cutAt position os region = gap :: fields ∧ fields.length = os.length := by
  induction os generalizing position region with
  | nil => exact ⟨region, [], rfl, rfl⟩
  | cons o os ih =>
    obtain ⟨gap, fields, h, hlen⟩ := ih o (region.drop (o - position))
    exact ⟨_, _, rfl, by simp [h, hlen]⟩

lemma cutAt_ne_nil (position : Nat) (os : List Nat) (region : Bytes) :
    cutAt position os region ≠ [] := by
  obtain ⟨gap, fields, h, -⟩ := exists_cutAt position os region
  simp [h]

lemma flatten_cutAt (position : Nat) (os : List Nat) (region : Bytes) :
    (cutAt position os region).flatten = region := by
  induction os generalizing position region with
  | nil => simp [cutAt]
  | cons o os ih => rw [cutAt, List.flatten_cons, ih, List.take_append_drop]

lemma dropLast_cutAt_cons (o : Nat) : (cutAt position (o :: os) region).dropLast =
    region.take (o - position) :: (cutAt o os (region.drop (o - position))).dropLast :=
  List.dropLast_cons_of_ne_nil (cutAt_ne_nil _ _ _)

lemma differences_cutAt : ∀ {os : List Nat} {position : Nat} (region : Bytes),
    (position :: os).Pairwise (· ≤ ·) → (∀ o ∈ os, o ≤ position + region.length) →
      Codec.differences (Int32.ofNat position) (os.map Int32.ofNat) =
        (cutAt position os region).dropLast.map Sections.step := by
  intro os
  induction os with
  | nil => intros; rfl
  | cons o os ih =>
    intro position region hsorted hle
    obtain ⟨hposition, hsorted⟩ := List.pairwise_cons.1 hsorted
    have ho := hposition o (by simp)
    have hregion := hle o (by simp)
    have hrest := ih (region.drop (o - position)) hsorted fun o' ho' => by
      have := hle o' (by simp [ho'])
      rw [List.length_drop]
      omega
    have hlen : (region.take (o - position)).length = o - position := by
      rw [List.length_take]
      omega
    have hstep : Int32.ofNat o - Int32.ofNat position = Int32.ofNat (o - position) := by
      rw [← Int32.ofNat_sub _ _ ho]
    rw [List.map_cons, Codec.differences, hrest, dropLast_cutAt_cons, List.map_cons, Sections.step,
      hlen, hstep]

lemma length_dropLast_cutAt_le : ∀ {os : List Nat} {position : Nat} (region : Bytes),
    (position :: os).Pairwise (· ≤ ·) → ∀ limit, position ≤ limit → (∀ o ∈ os, o ≤ limit) →
      (cutAt position os region).dropLast.flatten.length + position ≤ limit := by
  intro os
  induction os with
  | nil =>
    intro position region _ limit hposition _
    simpa [cutAt] using hposition
  | cons o os ih =>
    intro position region hsorted limit hlimit hle
    obtain ⟨hposition, hsorted⟩ := List.pairwise_cons.1 hsorted
    have ho := hposition o (by simp)
    have hrest := ih (region.drop (o - position)) hsorted limit (hle o (by simp))
      fun o' ho' => hle o' (by simp [ho'])
    rw [dropLast_cutAt_cons, List.flatten_cons, List.length_append, List.length_take]
    omega

lemma layOut_cutAt {start : Nat} : ∀ {os : List Nat} {position : Nat} {region : Bytes} (ns : List Nat)
    {gap : Bytes} {fields : List Bytes}, (position :: os).Pairwise (· ≤ ·) →
      (∀ o ∈ os, o ≤ position + region.length) → cutAt position os region = gap :: fields →
        ChunkIndex.layOut start (start + (position + region.length)) os ns =
          Sections.spans (start + (position + gap.length)) fields ns := by
  intro os
  induction os with
  | nil =>
    intro position region ns gap fields _ _ hcut
    obtain ⟨rfl, rfl⟩ : region = gap ∧ [] = fields := by simpa [cutAt] using hcut
    cases ns <;> rfl
  | cons o os ih =>
    intro position region ns gap fields hsorted hle hcut
    obtain ⟨hposition, hsorted⟩ := List.pairwise_cons.1 hsorted
    have ho := hposition o (by simp)
    have hregion := hle o (by simp)
    obtain ⟨rfl, rfl⟩ : region.take (o - position) = gap ∧
        cutAt o os (region.drop (o - position)) = fields := by simpa [cutAt] using hcut
    cases ns with
    | nil => cases os <;> rfl
    | cons n ns =>
      obtain ⟨gap, fields, hrest, -⟩ := exists_cutAt o os (region.drop (o - position))
      have hle' : ∀ o' ∈ os, o' ≤ o + (region.drop (o - position)).length := fun o' ho' => by
        have := hle o' (by simp [ho'])
        rw [List.length_drop]
        omega
      have htotal : o + (region.drop (o - position)).length = position + region.length := by
        rw [List.length_drop]
        omega
      have hspans := ih ns hsorted hle' hrest
      have hlen : (region.take (o - position)).length = o - position := by
        rw [List.length_take]
        omega
      have hstart : position + (o - position) = o := by omega
      have hstop : (os.head?.map (start + ·)).getD (start + (position + region.length)) =
          start + (o + gap.length) := by
        cases os with
        | nil =>
          obtain ⟨rfl, -⟩ : region.drop (o - position) = gap ∧ [] = fields := by
            simpa [cutAt] using hrest
          simp only [List.head?_nil, Option.map_none, Option.getD_none, htotal]
        | cons o' os =>
          have hoo := (List.pairwise_cons.1 hsorted).1 o' (by simp)
          have hor := hle' o' (by simp)
          obtain ⟨rfl, -⟩ : (region.drop (o - position)).take (o' - o) = gap ∧ _ = fields := by
            simpa [cutAt] using hrest
          have hgap : ((region.drop (o - position)).take (o' - o)).length = o' - o := by
            rw [List.length_take]
            omega
          simp only [List.head?_cons, Option.map_some, Option.getD_some, hgap]
          omega
      rw [htotal] at hspans
      rw [ChunkIndex.layOut, hspans, hrest, Sections.spans, hlen, hstart, hstop, Nat.add_assoc]

end Bytes

namespace ChunkIndex

open ChunkBuilder (maxIndexed)

lemma ofNat_toNatClampNeg {v : Int32} (h : ¬ v < 0) : Int32.ofNat v.toNatClampNeg = v := by
  have hv : 0 ≤ v.toInt := by simpa [Int32.lt_iff_toInt_lt] using h
  have hlt := v.toInt_lt
  apply Int32.toInt_inj.1
  rw [← Int32.toNat_toInt, Int32.toInt_ofNat_of_lt (by omega)]
  omega

lemma toNatClampNeg_le (v : Int32) : v.toNatClampNeg ≤ maxIndexed := by
  have hlt := v.toInt_lt
  rw [← Int32.toNat_toInt, maxIndexed]
  omega

lemma map_ofNat_of_offsets {region : Nat} {raw : List Int32} : ∀ {previous : Nat} {os : List Nat},
    offsets region previous raw = .ok os → os.map Int32.ofNat = raw ∧ ∀ o ∈ os, o ≤ maxIndexed := by
  induction raw with
  | nil =>
    intro previous os h
    obtain rfl : [] = os := by simpa [offsets] using h
    simp
  | cons r raw ih =>
    intro previous os h
    simp only [offsets] at h
    split at h
    · cases h
    next hr =>
      split at h
      · cases h
      · split at h
        · cases h
        · split at h
          next os' hos =>
            obtain rfl := Except.ok.inj h
            obtain ⟨hmap, hmax⟩ := ih hos
            refine ⟨by rw [List.map_cons, ofNat_toNatClampNeg hr, hmap], fun o ho => ?_⟩
            rcases List.mem_cons.1 ho with rfl | ho
            · exact toNatClampNeg_le r
            · exact hmax o ho
          · cases h

lemma of_sizes {raw : List Int32} : ∀ {ns : List Nat}, sizes raw = .ok ns →
    raw.map Int32.toNatClampNeg = ns ∧ ∀ r ∈ raw, 0 ≤ r := by
  induction raw with
  | nil =>
    intro ns h
    obtain rfl : [] = ns := by simpa [sizes] using h
    simp
  | cons r raw ih =>
    intro ns h
    rw [sizes] at h
    split at h
    · cases h
    next hr =>
      split at h
      next ns' hns =>
        obtain rfl := Except.ok.inj h
        obtain ⟨hmap, hpos⟩ := ih hns
        refine ⟨by rw [List.map_cons, hmap], fun v hv => ?_⟩
        rcases List.mem_cons.1 hv with rfl | hv
        · exact Int32.not_lt.1 hr
        · exact hpos v hv
      · cases h

end ChunkIndex

namespace Sections

open ChunkBuilder (maxIndexed)

variable {p : Sections} {payload : Bytes} {count : Nat} {index : ChunkIndex}

theorem exists_of_decode (h : ChunkIndex.decode payload count = .ok index) :
    ∃ p : Sections, p.Valid ∧ p.bytes = payload ∧ p.fields.length = count ∧ p.toIndex = index := by
  obtain ⟨⟨rest, region, rawOffsets, rawSizes, os, ns, hoffsets, hsizes, hos, hns, rfl⟩⟩ :=
    ChunkIndex.parts_of_decode h
  have hlenOffsets := Codec.length_of_split hoffsets
  obtain ⟨offsetCodes, -, hoffsetCodes, hrestore, rfl⟩ := Codec.split_eq_ok_iff.1 hoffsets
  obtain ⟨sizeCodes, hlenSizes, hsizeCodes, hvalues, rfl⟩ := Codec.split_eq_ok_iff.1 hsizes
  obtain ⟨hlen, hsorted, hle⟩ := ChunkIndex.offsets_ok hos
  obtain ⟨hraw, hmax⟩ := ChunkIndex.map_ofNat_of_offsets hos
  obtain ⟨hcounts, hpos⟩ := ChunkIndex.of_sizes hns
  obtain ⟨gap, fields, hcut, hfields⟩ := Bytes.exists_cutAt 0 os region
  have hle' : ∀ o ∈ os, o ≤ 0 + region.length := by simpa using hle
  have hvalues : sizeCodes.map Varbyte.value = rawSizes := hvalues
  have hregion : (gap :: fields).flatten = region := by rw [← hcut, Bytes.flatten_cutAt]
  have hsteps : offsetCodes.map Varbyte.value = (gap :: fields).dropLast.map step := by
    calc offsetCodes.map Varbyte.value
      _ = Codec.delta.prepare rawOffsets := by rw [← hrestore, Codec.prepare_restore]
      _ = (gap :: fields).dropLast.map step := by
        rw [← hraw, ← hcut, ← Bytes.differences_cutAt region hsorted hle']
        rfl
  refine ⟨⟨offsetCodes, sizeCodes, gap, fields⟩, ⟨?_, hsteps, ?_, ?_, ?_⟩, ?_, ?_, ?_⟩
  · intro code hc
    exact (List.mem_append.1 hc).elim (hoffsetCodes code) (hsizeCodes code)
  · rw [hlenSizes, hfields, hlen, hlenOffsets]
  · intro code hc
    exact hpos _ (hvalues ▸ List.mem_map_of_mem hc)
  · have hfits := Bytes.length_dropLast_cutAt_le region hsorted maxIndexed (Nat.zero_le _) hmax
    rwa [hcut] at hfits
  · rw [bytes, index, pieces, hregion, List.append_assoc]
  · rw [hfields, hlen, hlenOffsets]
  · have hstart : (offsetCodes.flatten ++ (sizeCodes.flatten ++ region)).length - region.length =
        (offsetCodes.flatten ++ sizeCodes.flatten).length := by
      simp only [List.length_append]
      omega
    have htotal : (offsetCodes.flatten ++ (sizeCodes.flatten ++ region)).length =
        (offsetCodes.flatten ++ sizeCodes.flatten).length + (0 + region.length) := by
      simp only [List.length_append]
      omega
    rw [hstart, htotal, Bytes.layOut_cutAt ns hsorted hle' hcut, Nat.zero_add]
    have hmap : sizeCodes.map (fun code => (Varbyte.value code).toNatClampNeg) = ns := by
      rw [← hcounts, ← hvalues, List.map_map]
      rfl
    rw [toIndex, counts, hmap]
    rfl

lemma slice_of_spans : ∀ (front : Bytes) {fields : List Bytes} {ns : List Nat} {i : Nat} {data : Bytes}
    {n : Nat}, fields[i]? = some data → ns[i]? = some n →
      ∃ s, (spans front.length fields ns)[i]? = some s ∧
        (front ++ fields.flatten).slice s.start s.stop = data ∧ s.size = n := by
  intro front fields
  induction fields generalizing front with
  | nil => simp
  | cons field fields ih =>
    intro ns i data n hdata hn
    cases ns with
    | nil => simp at hn
    | cons m ns =>
      cases i with
      | zero =>
        obtain ⟨rfl, rfl⟩ : field = data ∧ m = n := by simpa using And.intro hdata hn
        exact ⟨_, rfl, ChunkBuilder.slice_append front field fields.flatten, rfl⟩
      | succ i =>
        obtain ⟨s, hs, hslice, hsize⟩ := ih (front ++ field) (by simpa using hdata) (by simpa using hn)
        refine ⟨s, ?_, ?_, hsize⟩
        · rwa [List.length_append] at hs
        · rwa [List.append_assoc] at hslice

end Sections

namespace Chunk

def IsReadable (c : Chunk) : Prop :=
  ∀ t ∈ c.descriptor.tracks, ∃ v, Attempt.outcome (value? t c) = .ok v

variable {d : Descriptor} {timestamp : Int64} {payload : Bytes}

lemma exists_sections (h : (ofParts d timestamp payload).IsReadable) : ∃ p : Sections, p.Valid ∧
    p.bytes = payload ∧ p.fields.length = d.size ∧ ChunkIndex.decode payload d.size = .ok p.toIndex := by
  obtain ⟨c, hc⟩ | ⟨index, hindex, -⟩ := ChunkIndex.decode_cases payload d.size
  · exfalso
    cases hd : d.tracks with
    | nil =>
      obtain ⟨os, hos⟩ : ∃ index, ChunkIndex.decode payload 0 = .ok index := ⟨_, rfl⟩
      rw [TrackList.size, hd, List.length_nil, hos] at hc
      cases hc
    | cons t ts =>
      have ht : t ∈ d.tracks := by simp [hd]
      obtain ⟨v, hv⟩ := h t ht
      rw [value?_error (field?_corrupt (TrackList.find?_of_mem ht) hc)] at hv
      cases hv
  · obtain ⟨p, hp, hbytes, hlen, rfl⟩ := Sections.exists_of_decode hindex
    exact ⟨p, hp, hbytes, hlen, hindex⟩

end Chunk
end ChunkStore
