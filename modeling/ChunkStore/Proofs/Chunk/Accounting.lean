import ChunkStore.Proofs.Chunk.Bounds
import ChunkStore.Proofs.Chunk.Damage
import ChunkStore.Proofs.Chunk.Sections

/-!
Which bytes of a payload belong to the index and which to a field. The fields lie next to each other
up to the end, so it is only the place of the first one that leaves bytes to nobody. A builder puts
it directly behind the index.
-/

namespace ChunkStore

namespace Span

def length (s : Span) : Nat := s.stop - s.start

def total : List Span → Nat
  | [] => 0
  | s :: ss => s.length + total ss

def covers (s : Span) (i : Nat) : Bool := s.start ≤ i ∧ i < s.stop

lemma start_add_total_of_adjacent {s last : Span} {ss : List Span}
    (hadjacent : (s :: ss).IsChain fun s t => s.stop = t.start)
    (hle : ∀ t ∈ s :: ss, t.start ≤ t.stop) (hlast : (s :: ss).getLast? = some last) :
    s.start + total (s :: ss) = last.stop := by
  induction ss generalizing s with
  | nil =>
    obtain rfl : s = last := by simpa using hlast
    have hs := hle s (by simp)
    rw [total, total, length]
    omega
  | cons t ss ih =>
    obtain ⟨hst, hadjacent⟩ := List.isChain_cons_cons.1 hadjacent
    rw [List.getLast?_cons_cons] at hlast
    have hrest := ih hadjacent (fun u hu => hle u (by simp [hu])) hlast
    have hs := hle s (by simp)
    rw [total, length]
    omega

lemma countP_covers_of_adjacent {s last : Span} {ss : List Span}
    (hadjacent : (s :: ss).IsChain fun s t => s.stop = t.start)
    (hle : ∀ t ∈ s :: ss, t.start ≤ t.stop) (hlast : (s :: ss).getLast? = some last) (i : Nat) :
    (s :: ss).countP (covers · i) = if s.start ≤ i ∧ i < last.stop then 1 else 0 := by
  induction ss generalizing s with
  | nil =>
    obtain rfl : s = last := by simpa using hlast
    simp [covers]
  | cons t ss ih =>
    have htotal := start_add_total_of_adjacent hadjacent hle hlast
    obtain ⟨hst, hadjacent⟩ := List.isChain_cons_cons.1 hadjacent
    rw [List.getLast?_cons_cons] at hlast
    have hrest := ih hadjacent (fun u hu => hle u (by simp [hu])) hlast
    have hs := hle s (by simp)
    rw [total, length] at htotal
    rw [List.countP_cons, hrest]
    simp only [covers, decide_eq_true_eq]
    split <;> split <;> split <;> omega

end Span

namespace ChunkIndex

variable {index : ChunkIndex} {payload : Bytes} {count : Nat}

def Accounts (index : ChunkIndex) (payload : Bytes) : Prop :=
  index.fieldStart + Span.total index.spans = payload.length

def owners (index : ChunkIndex) (i : Nat) : Nat :=
  (if i < index.fieldStart then 1 else 0) + index.spans.countP (Span.covers · i)

structure OwnedFrom (index : ChunkIndex) (payload : Bytes) (first : Nat) : Prop where
  fieldStart_le : index.fieldStart ≤ first
  total : first + Span.total index.spans = payload.length
  accounts_iff : index.Accounts payload ↔ first = index.fieldStart
  owners : ∀ i < payload.length, index.owners i = if index.fieldStart ≤ i ∧ i < first then 0 else 1

lemma Tiles.ownedFrom (h : index.Tiles payload count) {first : Span}
    (hfirst : index.spans.head? = some first) : index.OwnedFrom payload first.start := by
  obtain ⟨ss, hspans⟩ := List.head?_eq_some_iff.1 hfirst
  obtain ⟨last, hlast⟩ : ∃ last, index.spans.getLast? = some last :=
    Option.isSome_iff_exists.1 (by simp [hspans])
  have hbounds : ∀ s ∈ index.spans, s.start ≤ s.stop := fun s hs => (h.bounds s hs).2.1
  have hstop : last.stop = payload.length := h.last last hlast
  have hadjacent := h.adjacent
  obtain ⟨hstart, hle, -⟩ := h.bounds first (by simp [hspans])
  rw [hspans] at hadjacent hbounds hlast
  have htotal := Span.start_add_total_of_adjacent hadjacent hbounds hlast
  have hcount := Span.countP_covers_of_adjacent hadjacent hbounds hlast
  rw [← hspans, hstop] at htotal hcount
  refine ⟨hstart, htotal, ?_, fun i hi => ?_⟩
  · rw [Accounts]
    omega
  · rw [ChunkIndex.owners, hcount]
    split <;> split <;> split <;> omega

lemma exists_head?_of_decode (h : decode payload count = .ok index) (hcount : count ≠ 0) :
    ∃ first, index.spans.head? = some first := by
  have hlen := (tiles_of_decode h).length_spans
  cases hspans : index.spans with
  | nil => simp [← hlen, hspans] at hcount
  | cons first ss => exact ⟨first, rfl⟩

lemma exists_ownedFrom (h : decode payload count = .ok index) (hcount : count ≠ 0) :
    ∃ first, index.spans.head? = some first ∧ index.OwnedFrom payload first.start := by
  obtain ⟨first, hfirst⟩ := exists_head?_of_decode h hcount
  exact ⟨first, hfirst, (tiles_of_decode h).ownedFrom hfirst⟩

end ChunkIndex

namespace Chunk

open ChunkBuilder (runAll empty Packs)

variable {d : Descriptor}

lemma accounts_of_packs {t : Track} {gs : List (Option EncodedField)} {f : Option EncodedField}
    (h : Packs d t gs f) : ∃ index,
      ChunkIndex.decode (ChunkBuilder.payload (gs ++ [f])) d.size = .ok index ∧
        index.Accounts (ChunkBuilder.payload (gs ++ [f])) := by
  have hregion : ∀ o ∈ ChunkBuilder.offsets 0 (gs ++ [f]),
      o ≤ ((gs ++ [f]).flatMap ChunkBuilder.dataOf).length := fun o ho => by
    simpa using (ChunkBuilder.le_of_mem_offsets ho).2
  have hindex := h.decode_front hregion
  rw [← ChunkBuilder.payload_eq] at hindex
  have hsize : d.size ≠ 0 := by simp [h.size]
  obtain ⟨first, hfirst, howned⟩ := ChunkIndex.exists_ownedFrom hindex hsize
  refine ⟨_, hindex, howned.accounts_iff.2 ?_⟩
  -- the offset of the first field is 0
  cases hfs : gs ++ [f] with
  | nil => simp at hfs
  | cons g fs =>
    simp only [hfs, ChunkBuilder.offsets, List.map_cons, ChunkIndex.layOut, List.head?_cons,
      Option.some.injEq] at hfirst
    rw [← hfirst]
    rfl

/-- If all tracks of a chunk can be read, then all bytes are accounted for exactly if the first
field starts where the index ends. That is so for the chunks that are built, but it is not checked:
bytes in between belong to nobody. -/
theorem accounts_iff_first_adjacent (hd : d.tracks ≠ []) :
    (∀ timestamp payload, (ofParts d timestamp payload).IsReadable → ∃ index first,
      ChunkIndex.decode payload d.size = .ok index ∧ index.spans.head? = some first ∧
        index.OwnedFrom payload first.start) ∧
    ∀ calls chunk b, ChunkBuilder.build (runAll calls (empty d)) = .ok chunk b → ∃ index,
      ChunkIndex.decode chunk.payload d.size = .ok index ∧ index.Accounts chunk.payload := by
  have hsize : d.size ≠ 0 := by simpa [TrackList.size] using hd
  constructor
  · intro timestamp payload h
    obtain ⟨p, -, -, -, hindex⟩ := exists_sections h
    obtain ⟨first, hfirst, howned⟩ := ChunkIndex.exists_ownedFrom hindex hsize
    exact ⟨_, first, hindex, hfirst, howned⟩
  · intro calls chunk b h
    obtain ⟨t, gs, f, hpacks, hpayload⟩ :=
      ChunkBuilder.packs_of_build hd ((ChunkBuilder.holds_empty d).runAll calls) h
    rw [hpayload]
    exact accounts_of_packs hpacks

def sampleBytesTrack : Descriptor where
  tracks := [⟨2, .binary⟩]
  ascending := List.pairwise_singleton _ _
  length_lt := by decide
  scope := none
  persistedId := 0

def sampleGap : Bytes := [1, 0, 0xFF]

lemma isReadable_sampleGap : (ofParts sampleBytesTrack 0 sampleGap).IsReadable := by
  intro t ht
  obtain rfl : t = ⟨2, .binary⟩ := by simpa [ofParts, sampleBytesTrack] using ht
  exact ⟨some (.binary []), by decide +kernel⟩

theorem accounts_iff_first_adjacent_sample :
    ∃ index first, ChunkIndex.decode sampleGap sampleBytesTrack.size = .ok index ∧
      index.spans.head? = some first ∧ index.OwnedFrom sampleGap first.start := by
  have hd : sampleBytesTrack.tracks ≠ [] := by decide
  exact (accounts_iff_first_adjacent hd).1 0 sampleGap isReadable_sampleGap

theorem not_accounts_of_gap : (ofParts sampleBytesTrack 0 sampleGap).IsReadable ∧
    ∃ index, ChunkIndex.decode sampleGap sampleBytesTrack.size = .ok index ∧
      ¬ index.Accounts sampleGap ∧ index.owners 2 = 0 := by
  refine ⟨isReadable_sampleGap, ⟨2, [⟨3, 3, 0⟩]⟩, by decide +kernel, ?_, by decide⟩
  rw [ChunkIndex.Accounts]
  decide

end Chunk
end ChunkStore
