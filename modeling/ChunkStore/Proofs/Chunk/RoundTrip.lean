import ChunkStore.Proofs.Chunk.Builder

namespace ChunkStore.ChunkBuilder

structure ReadsBack (c : Chunk) (vs : List (Int32 × FieldValue)) : Prop where
  assigned : ∀ e ∈ vs, c.Gives e.1 e.2 ∧ c.HasSize e.1 e.2.size
  unassigned : ∀ t ∈ c.descriptor.tracks, t.id ∉ vs.map Prod.fst → c.GivesEmpty t ∧ c.HasSize t.id 0
  absent : ∀ id, c.descriptor.find? id = none → c.Lacks id

def lastOffset (d : Descriptor) (vs : List (Int32 × FieldValue)) : Nat :=
  (d.tracks.dropLast.flatMap fun t => dataOf (fieldOf vs t)).length

variable {d : Descriptor} {vs : List (Int32 × FieldValue)}

lemma offset_le (ts : List Track) : ∀ {position o : Nat}, o ∈ offsets position (ts.map (fieldOf vs)) →
    o ≤ position + (ts.dropLast.flatMap fun t => dataOf (fieldOf vs t)).length := by
  induction ts with
  | nil => simp [offsets]
  | cons t ts ih =>
    intro position o ho
    rcases List.mem_cons.1 ho with rfl | ho
    · omega
    · cases ts with
      | nil => simp [offsets] at ho
      | cons u us =>
        have := ih ho
        simp only [List.dropLast_cons_cons, List.flatMap_cons, List.length_append]
        omega

lemma offset_le_lastOffset {o : Nat} (h : o ∈ offsets 0 (d.tracks.map (fieldOf vs))) :
    o ≤ lastOffset d vs := by
  simpa [lastOffset] using offset_le d.tracks h

lemma lastOffset_le (h : ∀ o ∈ offsets 0 (d.tracks.map (fieldOf vs)), o ≤ maxIndexed) :
    lastOffset d vs ≤ maxIndexed := by
  obtain hnil | ⟨ts, t, hts⟩ := List.eq_nil_or_concat d.tracks
  · simp [lastOffset, hnil]
  · apply h
    rw [List.concat_eq_append] at hts
    rw [lastOffset, hts, List.dropLast_concat, List.map_append, List.map_singleton, offsets_concat,
      List.flatMap_map, Nat.zero_add]
    simp

lemma sizeOf_le (h : Assigns d vs) {t : Track} (ht : t ∈ d.tracks) :
    sizeOf (fieldOf vs t) ≤ maxIndexed := by
  by_cases hmem : t.id ∈ vs.map Prod.fst
  · obtain ⟨⟨id, v⟩, hv, rfl⟩ := List.mem_map.1 hmem
    obtain ⟨data, -, hf⟩ := fieldOf_of_mem h hv ht
    simpa [hf, sizeOf] using h.size_le _ hv
  · simp [fieldOf_eq_none hmem, sizeOf]

lemma field?_payload {fs : List (Option EncodedField)} (hlen : fs.length = d.size)
    (hmax : ∀ o ∈ offsets 0 fs, o ≤ maxIndexed) (hsizes : ∀ f ∈ fs, sizeOf f ≤ maxIndexed)
    (timestamp : Int64) {t : Track} {i : Nat} {f : Option EncodedField}
    (hfind : d.find? t.id = some t) (hi : d.indexOf? t.id = some i) (hf : fs[i]? = some f) :
    ∃ c, Chunk.field? t.id (.ofParts d timestamp (payload fs)) =
      .ok (some ⟨t, dataOf f, sizeOf f⟩) c := by
  have hregion : ∀ o ∈ offsets 0 fs, o ≤ (fs.flatMap dataOf).length := fun o ho => by
    simpa using (le_of_mem_offsets ho).2
  have hsizes' : ∀ n ∈ fs.map sizeOf, n ≤ maxIndexed := by simpa using hsizes
  have hindex := ChunkIndex.decode_encode_append (fs.flatMap dataOf) (by simp)
    (pairwise_offsets 0 fs) hregion hmax hsizes'
  rw [List.length_map, hlen] at hindex
  obtain ⟨s, hs, hslice, hsize⟩ :=
    span_of_field (ChunkIndex.encode (offsets 0 fs) (fs.map sizeOf)) fs [] hf
  have hfield := Chunk.field?_ofParts (t := timestamp) hfind hi hindex hs
  rw [List.nil_append] at hslice
  rw [hslice, hsize] at hfield
  exact ⟨_, hfield⟩

lemma field?_assigned (h : Assigns d vs) (hfit : lastOffset d vs ≤ maxIndexed) (timestamp : Int64)
    {t : Track} (ht : t ∈ d.tracks) :
    ∃ c, Chunk.field? t.id (.ofParts d timestamp (payload (d.tracks.map (fieldOf vs)))) =
      .ok (some ⟨t, dataOf (fieldOf vs t), sizeOf (fieldOf vs t)⟩) c := by
  have hfind := TrackList.find?_of_mem ht
  obtain ⟨i, hi, hti⟩ := TrackList.indexOf?_of_find? hfind
  refine field?_payload (by simp [TrackList.size]) ?_ ?_ timestamp hfind hi (by simp [hti])
  · exact fun o ho => Nat.le_trans (offset_le_lastOffset ho) hfit
  · intro f hf
    obtain ⟨u, hu, rfl⟩ := List.mem_map.1 hf
    exact sizeOf_le h hu

lemma readsBack_payload (h : Assigns d vs) (hfit : lastOffset d vs ≤ maxIndexed) (timestamp : Int64) :
    ReadsBack (.ofParts d timestamp (payload (d.tracks.map (fieldOf vs)))) vs where
  assigned e he := by
    obtain ⟨t, hfind, -⟩ := h.takes e he
    have ht : t ∈ d.tracks := List.mem_of_find?_eq_some hfind
    obtain ⟨id, v⟩ := e
    obtain rfl : t.id = id := TrackList.id_of_find? hfind
    obtain ⟨c, hc⟩ := field?_assigned h hfit timestamp ht
    obtain ⟨data, hdata, hf⟩ := fieldOf_of_mem h he ht
    rw [hf] at hc
    exact ⟨Chunk.gives_of_field? hc (Track.decodes_encode hdata), Chunk.hasSize_of_field? hc⟩
  unassigned t ht hnew := by
    obtain ⟨c, hc⟩ := field?_assigned h hfit timestamp ht
    rw [fieldOf_eq_none hnew] at hc
    exact ⟨Chunk.givesEmpty_of_field? (f := ⟨t, [], 0⟩) hc t.decodesEmpty_nil,
      Chunk.hasSize_of_field? hc⟩
  absent id hid := Chunk.lacks_of_field? (Chunk.field?_eq_none hid)

lemma setTimestamp_run {t : Int64} (ht : 0 ≤ t) (b : ChunkBuilder) :
    setTimestamp t b = .ok () { b with timestamp := some t } := by
  rw [setTimestamp, if_neg (Int64.not_lt.2 ht)]

lemma reset_holding (timestamp : Option Int64) : (holding d timestamp vs).reset = empty d := by
  simp [holding, reset, empty, TrackList.size, Function.comp_def, List.map_const']

lemma build_holding (hfit : lastOffset d vs ≤ maxIndexed) (t : Int64) :
    build (holding d (some t) vs) =
      .ok (.ofParts d t (payload (d.tracks.map (fieldOf vs)))) (empty d) := by
  have hfind : (offsets 0 (d.tracks.map (fieldOf vs))).find? (maxIndexed < ·) = none := by
    apply List.find?_eq_none.2
    intro o ho
    have := offset_le_lastOffset ho
    simp only [decide_eq_true_eq]
    omega
  have hreset : (holding d (some t) vs).reset = empty d := reset_holding (some t)
  rw [← hreset]
  simp only [build, holding, hfind]

theorem readsBack_build (d : Descriptor) {t : Int64} (ht : 0 ≤ t) (vs : List (Int32 × FieldValue)) :
    ((∃ b, (setTimestamp t >>= fun _ => setAll vs) (empty d) = .ok () b) ↔ Assigns d vs) ∧
      ∀ b, (setTimestamp t >>= fun _ => setAll vs) (empty d) = .ok () b → lastOffset d vs ≤ maxIndexed →
        ∃ payload, build b = .ok (.ofParts d t payload) (empty d) ∧
          ReadsBack (.ofParts d t payload) vs := by
  have hstart : { empty d with timestamp := some t } = holding d (some t) [] := by
    rw [empty_eq_holding]
    rfl
  have hrun : (setTimestamp t >>= fun _ => setAll vs) (empty d) = setAll vs (holding d (some t) []) := by
    rw [Attempt.bind_ok (setTimestamp_run ht _), hstart]
  have hnil : Assigns d [] := ⟨by simp, by simp, by simp⟩
  rw [hrun]
  refine ⟨⟨?_, fun h => ⟨_, setAll_holding vs [] h⟩⟩, ?_⟩
  · rintro ⟨b, hb⟩
    exact of_setAll_holding vs hnil hb
  · intro b hb hfit
    have h : Assigns d vs := of_setAll_holding vs hnil hb
    rw [setAll_holding vs [] h] at hb
    obtain rfl : holding d (some t) vs = b := by simpa using hb
    exact ⟨_, build_holding hfit t, readsBack_payload h hfit t⟩

def sampleDescriptor : Descriptor where
  tracks := [⟨-7, .binary⟩, ⟨3, .deltaVarbyte⟩, ⟨42, .noData⟩, ⟨50, .text⟩]
  ascending := by decide
  length_lt := by decide
  scope := none
  persistedId := 0

def sampleValues : List (Int32 × FieldValue) :=
  [(50, .text "\u00e9"), (3, .integers [300, -1]), (-7, .binary [0, 255])]

theorem readsBack_build_sample :
    ∃ b payload, (setTimestamp 7 >>= fun _ => setAll sampleValues) (empty sampleDescriptor) = .ok () b ∧
      lastOffset sampleDescriptor sampleValues ≤ maxIndexed ∧
      build b = .ok (.ofParts sampleDescriptor 7 payload) (empty sampleDescriptor) ∧
      ReadsBack (.ofParts sampleDescriptor 7 payload) sampleValues := by
  have ht : (0 : Int64) ≤ 7 := by decide
  have hvalues : Assigns sampleDescriptor sampleValues := by
    refine ⟨by decide, by decide +kernel, ?_⟩
    simp only [sampleValues, List.forall_mem_cons]
    exact ⟨⟨_, rfl, rfl⟩, ⟨_, rfl, .inr rfl⟩, ⟨_, rfl, rfl⟩, by simp⟩
  have hfit : lastOffset sampleDescriptor sampleValues ≤ maxIndexed := by decide +kernel
  obtain ⟨b, hb⟩ := (readsBack_build sampleDescriptor ht sampleValues).1.2 hvalues
  obtain ⟨payload, hbuild, hread⟩ := (readsBack_build sampleDescriptor ht sampleValues).2 b hb hfit
  exact ⟨b, payload, hb, hfit, hbuild, hread⟩

end ChunkStore.ChunkBuilder
