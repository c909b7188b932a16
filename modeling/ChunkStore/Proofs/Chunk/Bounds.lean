import ChunkStore.Proofs.Chunk.Index

/-! Whatever bytes an index is read from, its spans are cut from the payload behind it, one next to
the other, and they depend on nothing but the bytes in front of them and the payload's length. -/

namespace ChunkStore.ChunkIndex

def BlocksWithin (payload : Bytes) (count : Nat) : Prop :=
  ∀ os n, Codec.delta.decompress payload count [] = (os, .ok n) → n ≤ payload.length ∧
    ∀ ns m, Codec.plain.decompress (payload.drop n) count [] = (ns, .ok m) → n + m ≤ payload.length

structure Tiles (index : ChunkIndex) (payload : Bytes) (count : Nat) : Prop where
  blocks : ∃ os n ns m, Codec.delta.decompress payload count [] = (os, .ok n) ∧
    Codec.plain.decompress (payload.drop n) count [] = (ns, .ok m) ∧ index.fieldStart = n + m
  start_le : index.fieldStart ≤ payload.length
  length_spans : index.spans.length = count
  bounds : ∀ s ∈ index.spans, index.fieldStart ≤ s.start ∧ s.start ≤ s.stop ∧ s.stop ≤ payload.length
  adjacent : index.spans.IsChain fun s t => s.stop = t.start
  disjoint : index.spans.Pairwise fun s t => s.stop ≤ t.start
  last : ∀ s ∈ index.spans.getLast?, s.stop = payload.length

lemma blocksWithin (payload : Bytes) (count : Nat) : BlocksWithin payload count := by
  intro os n hos
  have hn := Codec.consumed_le hos
  refine ⟨hn, fun ns m hns => ?_⟩
  have hm := Codec.consumed_le hns
  rw [List.length_drop] at hm
  omega

lemma offsets_ok {region : Nat} {raw : List Int32} : ∀ {previous : Nat} {os : List Nat},
    offsets region previous raw = .ok os →
      os.length = raw.length ∧ (previous :: os).Pairwise (· ≤ ·) ∧ ∀ o ∈ os, o ≤ region := by
  induction raw with
  | nil =>
    intro previous os h
    obtain rfl : [] = os := by simpa [offsets] using h
    simp
  | cons r raw ih =>
    intro previous os h
    simp only [offsets] at h
    split at h
    · cases h
    · split at h
      · cases h
      next hregion =>
        split at h
        · cases h
        next hprevious =>
          split at h
          next os' hos =>
            obtain rfl : r.toNatClampNeg :: os' = os := by simpa using h
            obtain ⟨hlen, hsorted, hle⟩ := ih hos
            refine ⟨by simp [hlen], List.pairwise_cons.2 ⟨fun o ho => ?_, hsorted⟩, fun o ho => ?_⟩
            · rcases List.mem_cons.1 ho with rfl | ho
              · omega
              · have := (List.pairwise_cons.1 hsorted).1 o ho
                omega
            · rcases List.mem_cons.1 ho with rfl | ho
              · omega
              · exact hle o ho
          · cases h

lemma length_of_sizes {raw : List Int32} : ∀ {ns : List Nat}, sizes raw = .ok ns →
    ns.length = raw.length := by
  induction raw with
  | nil =>
    intro ns h
    obtain rfl : [] = ns := by simpa [sizes] using h
    rfl
  | cons r raw ih =>
    intro ns h
    rw [sizes] at h
    split at h
    · cases h
    · split at h
      next ns' hns =>
        obtain rfl : r.toNatClampNeg :: ns' = ns := by simpa using h
        simp [ih hns]
      · cases h

lemma corrupt_of_offsets {region : Nat} {raw : List Int32} {e : Error} : ∀ {previous : Nat},
    offsets region previous raw = .error e → ∃ c, e = .corrupt c := by
  induction raw with
  | nil =>
    intro previous h
    cases h
  | cons r raw ih =>
    intro previous h
    simp only [offsets] at h
    split at h
    · exact ⟨_, (Except.error.inj h).symm⟩
    · split at h
      · exact ⟨_, (Except.error.inj h).symm⟩
      · split at h
        · exact ⟨_, (Except.error.inj h).symm⟩
        · split at h
          · cases h
          next hos =>
            obtain rfl := Except.error.inj h
            exact ih hos

lemma corrupt_of_sizes {raw : List Int32} {e : Error} (h : sizes raw = .error e) :
    ∃ c, e = .corrupt c := by
  induction raw with
  | nil => cases h
  | cons r raw ih =>
    rw [sizes] at h
    split at h
    · exact ⟨_, (Except.error.inj h).symm⟩
    · split at h
      · cases h
      next hns =>
        obtain rfl := Except.error.inj h
        exact ih hns

structure Parts (payload : Bytes) (count : Nat) (index : ChunkIndex) where
  rest : Bytes
  fields : Bytes
  rawOffsets : List Int32
  rawSizes : List Int32
  offsets : List Nat
  sizes : List Nat
  splitOffsets : Codec.delta.split payload count = .ok (rawOffsets, rest)
  splitSizes : Codec.plain.split rest count = .ok (rawSizes, fields)
  readOffsets : ChunkIndex.offsets fields.length 0 rawOffsets = .ok offsets
  readSizes : ChunkIndex.sizes rawSizes = .ok sizes
  eq : index = ⟨payload.length - fields.length,
    layOut (payload.length - fields.length) payload.length offsets sizes⟩

lemma decode_cases (payload : Bytes) (count : Nat) :
    (∃ c, decode payload count = .error (.corrupt c)) ∨
      ∃ index, decode payload count = .ok index ∧ Nonempty (Parts payload count index) := by
  cases hoffsets : Codec.delta.split payload count with
  | error e =>
    obtain ⟨c, rfl⟩ := Codec.corrupt_of_split hoffsets
    exact .inl ⟨c, by rw [decode, hoffsets]; rfl⟩
  | ok p =>
    obtain ⟨rawOffsets, rest⟩ := p
    cases hsizes : Codec.plain.split rest count with
    | error e =>
      obtain ⟨c, rfl⟩ := Codec.corrupt_of_split hsizes
      refine .inl ⟨c, ?_⟩
      simp [decode, hoffsets, hsizes, bind, Except.bind]
    | ok q =>
      obtain ⟨rawSizes, fields⟩ := q
      cases hos : offsets fields.length 0 rawOffsets with
      | error e =>
        obtain ⟨c, rfl⟩ := corrupt_of_offsets hos
        refine .inl ⟨c, ?_⟩
        simp [decode, hoffsets, hsizes, hos, bind, Except.bind]
      | ok os =>
        cases hns : sizes rawSizes with
        | error e =>
          obtain ⟨c, rfl⟩ := corrupt_of_sizes hns
          refine .inl ⟨c, ?_⟩
          simp [decode, hoffsets, hsizes, hos, hns, bind, Except.bind]
        | ok ns =>
          exact .inr ⟨_, decode_eq_ok hoffsets hsizes hos hns,
            ⟨⟨rest, fields, rawOffsets, rawSizes, os, ns, hoffsets, hsizes, hos, hns, rfl⟩⟩⟩

lemma parts_of_decode {payload : Bytes} {count : Nat} {index : ChunkIndex}
    (h : decode payload count = .ok index) : Nonempty (Parts payload count index) := by
  obtain ⟨c, hc⟩ | ⟨index', hindex, hparts⟩ := decode_cases payload count
  · rw [h] at hc
    cases hc
  · obtain rfl := Except.ok.inj (h.symm.trans hindex)
    exact hparts

section layOut

variable {start total region : Nat}

lemma length_layOut : ∀ {os ns : List Nat}, os.length = ns.length →
    (layOut start total os ns).length = ns.length
  | [], [], _ => rfl
  | o :: os, n :: ns, h => by
    rw [layOut, List.length_cons, List.length_cons, length_layOut (by simpa using h)]

lemma bounds_layOut {os : List Nat} : ∀ (previous : Nat) {ns : List Nat},
    (previous :: os).Pairwise (· ≤ ·) → (∀ o ∈ os, o ≤ region) →
      ∀ s ∈ layOut start (start + region) os ns,
        start + previous ≤ s.start ∧ s.start ≤ s.stop ∧ s.stop ≤ start + region := by
  induction os with
  | nil => simp [layOut]
  | cons o os ih =>
    intro previous ns hsorted hle s hs
    obtain ⟨hprevious, hsorted⟩ := List.pairwise_cons.1 hsorted
    cases ns with
    | nil => simp [layOut] at hs
    | cons n ns =>
      have ho := hprevious o (by simp)
      rcases List.mem_cons.1 hs with rfl | hs
      · have hor := hle o (by simp)
        cases os with
        | nil => simp [ho, hor]
        | cons o' os =>
          have hoo := (List.pairwise_cons.1 hsorted).1 o' (by simp)
          have hor' := hle o' (by simp)
          simp [ho, hoo, hor']
      · have := ih o hsorted (fun o ho => hle o (by simp [ho])) s hs
        omega

lemma disjoint_layOut {os : List Nat} : ∀ {ns : List Nat}, os.Pairwise (· ≤ ·) →
    (∀ o ∈ os, o ≤ region) →
      (layOut start (start + region) os ns).Pairwise fun s t => s.stop ≤ t.start := by
  induction os with
  | nil => simp [layOut]
  | cons o os ih =>
    intro ns hsorted hle
    cases ns with
    | nil => simp [layOut]
    | cons n ns =>
      have hle' : ∀ o ∈ os, o ≤ region := fun o ho => hle o (by simp [ho])
      obtain ⟨-, hsorted⟩ := List.pairwise_cons.1 hsorted
      refine List.pairwise_cons.2 ⟨fun t ht => ?_, ih hsorted hle'⟩
      cases os with
      | nil => simp [layOut] at ht
      | cons o' os =>
        have hrest : (o' :: o' :: os).Pairwise (· ≤ ·) := by
          refine List.pairwise_cons.2 ⟨fun p hp => ?_, hsorted⟩
          rcases List.mem_cons.1 hp with rfl | hp
          · exact Nat.le_refl _
          · exact (List.pairwise_cons.1 hsorted).1 p hp
        exact (bounds_layOut o' hrest hle' t ht).1

lemma adjacent_layOut : ∀ os ns : List Nat,
    (layOut start total os ns).IsChain fun s t => s.stop = t.start
  | [], _ | _ :: _, [] => by simp [layOut]
  | [o], n :: ns => by simp [layOut]
  | o :: o' :: os, [n] => by simp [layOut]
  | o :: o' :: os, n :: n' :: ns => by
    have hrest := adjacent_layOut (o' :: os) (n' :: ns)
    rw [layOut] at hrest
    rw [layOut, layOut]
    exact .cons_cons (by simp) hrest

lemma last_layOut : ∀ os ns : List Nat, os.length = ns.length →
    ∀ s ∈ (layOut start total os ns).getLast?, s.stop = total
  | [], [], _, s, hs => by simp [layOut] at hs
  | [o], [n], _, s, hs => by
    obtain rfl : (⟨start + o, total, n⟩ : Span) = s := by simpa [layOut] using hs
    rfl
  | o :: o' :: os, n :: n' :: ns, h, s, hs => by
    apply last_layOut (o' :: os) (n' :: ns) (by simpa using h) s
    rw [layOut, layOut, List.getLast?_cons_cons] at hs
    rw [layOut]
    exact hs

end layOut

theorem tiles_of_decode {payload : Bytes} {count : Nat} {index : ChunkIndex}
    (h : decode payload count = .ok index) : index.Tiles payload count := by
  obtain ⟨⟨rest, fields, rawOffsets, rawSizes, os, ns, hoffsets, hsizes, hos, hns, rfl⟩⟩ :=
    parts_of_decode h
  obtain ⟨n, hn, rfl⟩ := Codec.split_ok_iff.1 hoffsets
  obtain ⟨m, hm, rfl⟩ := Codec.split_ok_iff.1 hsizes
  obtain ⟨hlen, hsorted, hle⟩ := offsets_ok hos
  have hcount : os.length = ns.length := by
    rw [hlen, length_of_sizes hns, Codec.length_of_split hoffsets, Codec.length_of_split hsizes]
  have hwithin := (blocksWithin payload count _ n hn).2 _ m hm
  have hfields : ((payload.drop n).drop m).length = payload.length - n - m := by
    rw [List.length_drop, List.length_drop]
  have hstart : payload.length - ((payload.drop n).drop m).length = n + m := by omega
  have htotal : n + m + ((payload.drop n).drop m).length = payload.length := by omega
  rw [hstart]
  constructor
  · exact ⟨_, n, _, m, hn, hm, rfl⟩
  · exact hwithin
  · rw [length_layOut hcount, length_of_sizes hns, Codec.length_of_split hsizes]
  · rw [← htotal]
    exact bounds_layOut 0 hsorted hle
  · exact adjacent_layOut _ _
  · rw [← htotal]
    exact disjoint_layOut (List.pairwise_cons.1 hsorted).2 hle
  · exact last_layOut _ _ hcount

lemma decode_congr {payload payload' : Bytes} {count : Nat} {index : ChunkIndex}
    (h : decode payload count = .ok index) (hlen : payload'.length = payload.length)
    (hfront : payload'.take index.fieldStart = payload.take index.fieldStart) :
    decode payload' count = .ok index := by
  obtain ⟨⟨rest, fields, rawOffsets, rawSizes, os, ns, hoffsets, hsizes, hos, hns, rfl⟩⟩ :=
    parts_of_decode h
  obtain ⟨front₁, rfl, hread₁⟩ := Codec.split_ok hoffsets
  obtain ⟨front₂, rfl, hread₂⟩ := Codec.split_ok hsizes
  have hstart : (front₁ ++ (front₂ ++ fields)).length - fields.length = (front₁ ++ front₂).length := by
    simp only [List.length_append]
    omega
  rw [hstart, ← List.append_assoc, List.take_left] at hfront
  obtain ⟨fields', rfl⟩ : ∃ fields', payload' = front₁ ++ (front₂ ++ fields') :=
    ⟨payload'.drop (front₁ ++ front₂).length, by
      rw [← List.append_assoc, ← hfront, List.length_take, hlen]
      simp⟩
  have hfields : fields'.length = fields.length := by
    simp only [List.length_append] at hlen
    omega
  rw [← hfields] at hos
  rw [decode_eq_ok (hread₁ _) (hread₂ _) hos hns, hfields, hlen]

end ChunkStore.ChunkIndex
