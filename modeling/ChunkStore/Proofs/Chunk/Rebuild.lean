import ChunkStore.Proofs.Chunk.RoundTrip
import ChunkStore.Proofs.Chunk.Sections

/-!
A chunk that can be read is packed again from its values. The new payload answers as the old one
did. It is the old one, or it is shorter: codes may have been longer than need be, and there may
have been bytes in front of the first field.
-/

namespace ChunkStore

namespace Sections

open ChunkBuilder (maxIndexed)

variable {p : Sections} {pieces : List Bytes}

def packed (pieces : List Bytes) (counts : List Nat) : Bytes :=
  Varbyte.encodeAll (pieces.dropLast.map step) ++ Varbyte.encodeAll (counts.map Int32.ofNat) ++
    pieces.flatten

lemma forall₂_dropLast {long : List Bytes} (h : List.Forall₂ Bytes.SameOrShorter pieces long) :
    List.Forall₂ Bytes.SameOrShorter pieces.dropLast long.dropLast := by
  rw [List.dropLast_eq_take, List.dropLast_eq_take, h.length_eq]
  exact List.forall₂_take _ h

lemma length_flatten_le {long : List Bytes} (h : List.Forall₂ Bytes.SameOrShorter pieces long) :
    pieces.flatten.length ≤ long.flatten.length := by
  obtain rfl | hlt := Bytes.sameOrShorter_flatten h
  · exact Nat.le_refl _
  · exact Nat.le_of_lt hlt

lemma length_encodeAll_steps_le {long : List Bytes} (h : List.Forall₂ Bytes.SameOrShorter pieces long)
    (hmax : long.flatten.length ≤ maxIndexed) :
    (Varbyte.encodeAll (pieces.map step)).length ≤ (Varbyte.encodeAll (long.map step)).length := by
  induction h with
  | nil => exact Nat.le_refl _
  | @cons a b as bs hab _ ih =>
    rw [List.flatten_cons, List.length_append] at hmax
    have hstep : (Varbyte.encode (step a)).length ≤ (Varbyte.encode (step b)).length := by
      apply Varbyte.length_encode_ofNat_mono hab.length_le
      simp only [maxIndexed] at hmax
      omega
    have htail := ih (by omega)
    simp only [List.map_cons, Varbyte.encodeAll_cons, List.length_append]
    omega

lemma map_counts (hp : p.Valid) : p.counts.map Int32.ofNat = p.sizes.map Varbyte.value := by
  rw [counts, List.map_map]
  exact List.map_congr_left fun code hc =>
    ChunkIndex.ofNat_toNatClampNeg (Int32.not_lt.2 (hp.sizes code hc))

lemma encodeAll_values_of_subset (hp : p.Valid) {codes : List Bytes} (h : codes ⊆ p.offsets ++ p.sizes) :
    (Varbyte.encodeAll (codes.map Varbyte.value)).SameOrShorter codes.flatten :=
  Varbyte.encodeAll_values fun code hc => hp.codes code (h hc)

/-- Shorter pieces have shorter codes, and if no piece is shorter then the codes are of the same
lengths. -/
theorem packed_sameOrShorter (hp : p.Valid) (h : List.Forall₂ Bytes.SameOrShorter pieces p.pieces) :
    (packed pieces p.counts).SameOrShorter p.bytes := by
  have hoffsets := encodeAll_values_of_subset hp (List.subset_append_left p.offsets p.sizes)
  have hsizes := encodeAll_values_of_subset hp (List.subset_append_right p.offsets p.sizes)
  rw [hp.steps] at hoffsets
  rw [← map_counts hp] at hsizes
  obtain rfl | hlt := Bytes.sameOrShorter_flatten h
  · exact (hoffsets.append hsizes).append (.refl _)
  · have hsteps := (length_encodeAll_steps_le (forall₂_dropLast h) hp.fits).trans hoffsets.length_le
    have hcounts := hsizes.length_le
    right
    simp only [packed, bytes, index, List.length_append]
    omega

lemma length_counts (hp : p.Valid) : p.counts.length = p.fields.length := by
  rw [counts, List.length_map, hp.pairs]

lemma count_le {n : Nat} (h : n ∈ p.counts) : n ≤ maxIndexed := by
  obtain ⟨code, -, rfl⟩ := List.mem_map.1 h
  exact ChunkIndex.toNatClampNeg_le _

end Sections

namespace ChunkBuilder

variable {d : Descriptor} {vs ws : List (Int32 × FieldValue)} {t : Track}

def pack (timestamp : Int64) (vs : List (Int32 × FieldValue)) : Attempt ChunkBuilder Chunk := do
  setTimestamp timestamp
  setAll vs
  build

lemma pack_empty (h : Assigns d vs) (hfit : lastOffset d vs ≤ maxIndexed) {timestamp : Int64}
    (ht : 0 ≤ timestamp) : pack timestamp vs (empty d) =
      .ok (.ofParts d timestamp (payload (d.tracks.map (fieldOf vs)))) (empty d) := by
  have hstart : { empty d with timestamp := some timestamp } = holding d (some timestamp) [] := by
    rw [empty_eq_holding]
    rfl
  have hset : setAll vs (holding d (some timestamp) []) =
      .ok () (holding d (some timestamp) ([] ++ vs)) := setAll_holding vs [] h
  rw [pack, Attempt.bind_ok (setTimestamp_run ht _), hstart, Attempt.bind_ok hset, List.nil_append,
    build_holding hfit]

lemma differences_offsets (fs : List (Option EncodedField)) : ∀ (position : Nat) (piece : Bytes),
    Codec.differences (Int32.ofNat position) ((offsets (position + piece.length) fs).map Int32.ofNat) =
      (piece :: fs.map dataOf).dropLast.map Sections.step := by
  induction fs with
  | nil => intros; rfl
  | cons f fs ih =>
    intro position piece
    have hstep : Int32.ofNat (position + piece.length) - Int32.ofNat position =
        Int32.ofNat piece.length := by
      rw [← Int32.ofNat_sub _ _ (Nat.le_add_right _ _), Nat.add_sub_cancel_left]
    rw [offsets, List.map_cons, Codec.differences, ih, hstep, List.map_cons, List.dropLast_cons_cons,
      List.map_cons, Sections.step]

lemma payload_eq_packed (fs : List (Option EncodedField)) :
    payload fs = Sections.packed ([] :: fs.map dataOf) (fs.map sizeOf) := by
  have hsteps := differences_offsets fs 0 []
  rw [payload, ChunkIndex.encode, Sections.packed, ← hsteps]
  simp [Codec.compress, Codec.prepare, List.flatMap_def]

lemma rewritten {data : Bytes} {size : Nat} {v : FieldValue} (h : t.decode data size = .ok v)
    (hlookup : vs.lookup t.id = if v.isEmpty then none else some v) :
    (dataOf (fieldOf vs t)).SameOrShorter data ∧ sizeOf (fieldOf vs t) = size ∧
      ∀ w, t.Decodes data size w → t.Decodes (dataOf (fieldOf vs t)) size w := by
  obtain ⟨hsize, hnone, hsome⟩ := Track.of_decodes (Track.decode_eq_ok_iff.1 h).2
  by_cases hzero : size = 0
  · have hf : fieldOf vs t = none := by simp [fieldOf, hlookup, FieldValue.isEmpty, hsize, hzero]
    obtain rfl := hnone hzero
    rw [hf]
    exact ⟨.refl _, hzero.symm, fun w hw => hw⟩
  · obtain ⟨written, hwritten, hshort⟩ := hsome hzero
    have hf : fieldOf vs t = some ⟨written, size⟩ := by
      simp [fieldOf, hlookup, FieldValue.isEmpty, hsize, hzero, hwritten]
    rw [hf]
    refine ⟨hshort, rfl, fun w hw => ?_⟩
    obtain ⟨-, hsize0⟩ | hw := Track.decodes_cases hw
    · exact absurd hsize0 hzero
    · obtain rfl : v = w := Except.ok.inj (h.symm.trans hw)
      rw [← hsize]
      exact Track.decodes_encode hwritten

end ChunkBuilder

namespace Chunk

open ChunkBuilder

def held? (c : Chunk) (t : Track) : Option FieldValue :=
  match Attempt.outcome (value? t c) with
  | .ok (some v) => if v.isEmpty then none else some v
  | _ => none

def values (c : Chunk) : List (Int32 × FieldValue) :=
  c.descriptor.tracks.filterMap fun t => (c.held? t).map (t.id, ·)

structure KeepsAnswers (c c' : Chunk) (id : Int32) : Prop where
  size : ∀ n, Attempt.outcome (fieldSize? id c) = .ok n → Attempt.outcome (fieldSize? id c') = .ok n
  integers : ∀ vs, Attempt.outcome (integers? id c) = .ok vs → Attempt.outcome (integers? id c') = .ok vs
  text : ∀ s, Attempt.outcome (text? id c) = .ok s → Attempt.outcome (text? id c') = .ok s
  binary : ∀ bytes, Attempt.outcome (binary? id c) = .ok bytes →
    Attempt.outcome (binary? id c') = .ok bytes

variable {d : Descriptor} {timestamp : Int64} {payload : Bytes} {c c' : Chunk} {t : Track}
  {vs : List (Int32 × FieldValue)}

lemma mem_values {id : Int32} {v : FieldValue} :
    (id, v) ∈ c.values ↔ ∃ t ∈ c.descriptor.tracks, t.id = id ∧ c.held? t = some v := by
  simp only [values, List.mem_filterMap, Option.map_eq_some_iff, Prod.mk.injEq]
  constructor
  · rintro ⟨t, ht, w, hw, rfl, rfl⟩
    exact ⟨t, ht, rfl, hw⟩
  · rintro ⟨t, ht, rfl, hv⟩
    exact ⟨t, ht, v, hv, rfl, rfl⟩

lemma nodup_values (c : Chunk) : (c.values.map Prod.fst).Nodup := by
  have hsub (ts : List Track) :
      ((ts.filterMap fun t => (c.held? t).map (t.id, ·)).map Prod.fst).Sublist (ts.map Track.id) := by
    induction ts with
    | nil => exact .slnil
    | cons t ts ih =>
      cases hv : c.held? t with
      | none => simpa [hv] using ih.cons t.id
      | some v => simpa [hv] using ih
  exact (hsub c.descriptor.tracks).nodup c.descriptor.nodup_ids

lemma lookup_values (ht : t ∈ c.descriptor.tracks) : c.values.lookup t.id = c.held? t := by
  cases hv : c.held? t with
  | some v => exact lookup_of_mem c.nodup_values (mem_values.2 ⟨t, ht, rfl, hv⟩)
  | none =>
    apply lookup_eq_none
    intro hid
    obtain ⟨⟨_, v⟩, hmem, rfl⟩ := List.mem_map.1 hid
    obtain ⟨u, hu, hid, huv⟩ := mem_values.1 hmem
    obtain rfl : u = t := List.inj_on_of_nodup_map c.descriptor.nodup_ids hu ht hid
    rw [hv] at huv
    cases huv

structure Reads (p : Sections) (c : Chunk) (t : Track) (data : Bytes) (size : Nat) (v : FieldValue) :
    Prop where
  field : ∃ c', field? t.id c = .ok (some ⟨t, data, size⟩) c'
  size_mem : size ∈ p.counts
  value : t.decode data size = .ok v

lemma exists_reads (h : (ofParts d timestamp payload).IsReadable) {p : Sections} (hp : p.Valid)
    (hbytes : p.bytes = payload) (hlen : p.fields.length = d.size)
    (hindex : ChunkIndex.decode payload d.size = .ok p.toIndex) {i : Nat} (hi : d.tracks[i]? = some t) :
    ∃ data size v, p.fields[i]? = some data ∧ p.counts[i]? = some size ∧
      Reads p (ofParts d timestamp payload) t data size v := by
  have ht : t ∈ d.tracks := List.mem_of_getElem? hi
  obtain ⟨hlt, -⟩ := List.getElem?_eq_some_iff.1 hi
  obtain ⟨data, hdata⟩ : ∃ data, p.fields[i]? = some data :=
    ⟨_, List.getElem?_eq_getElem (hlen ▸ hlt)⟩
  obtain ⟨size, hsize⟩ : ∃ size, p.counts[i]? = some size :=
    ⟨_, List.getElem?_eq_getElem (Sections.length_counts hp ▸ hlen ▸ hlt)⟩
  obtain ⟨s, hs, hslice, rfl⟩ := Sections.slice_of_spans (p.index ++ p.gap) hdata hsize
  rw [List.length_append] at hs
  have hfield := field?_ofParts (t := timestamp) (TrackList.find?_of_mem ht)
    (TrackList.indexOf?_of_getElem? hi) hindex hs
  have hpayload : p.index ++ p.gap ++ p.fields.flatten = payload := by
    rw [← hbytes, Sections.bytes, Sections.pieces, List.flatten_cons, List.append_assoc]
  rw [← hpayload, hslice, hpayload] at hfield
  obtain ⟨v, hv⟩ := h t ht
  rw [value?_field hfield] at hv
  cases hdecode : t.decode data s.size with
  | error e =>
    rw [hdecode] at hv
    cases hv
  | ok v => exact ⟨data, s.size, v, hdata, hsize, ⟨_, hfield⟩, List.mem_of_getElem? hsize, hdecode⟩

lemma Reads.held? {p : Sections} {data : Bytes} {size : Nat} {v : FieldValue}
    (h : Reads p c t data size v) : c.held? t = if v.isEmpty then none else some v := by
  obtain ⟨c', hc'⟩ := h.field
  have hvalue := value?_field hc'
  rw [h.value] at hvalue
  simp only [Chunk.held?, hvalue, Except.map]

lemma Reads.takes {p : Sections} {data : Bytes} {size : Nat} {v : FieldValue}
    (h : Reads p c t data size v) (hne : v.isEmpty = false) : t.Takes v := by
  obtain ⟨hsize, -, hwritten⟩ := Track.of_decodes (Track.decode_eq_ok_iff.1 h.value).2
  obtain ⟨written, hw, -⟩ := hwritten fun h0 => by simp [FieldValue.isEmpty, hsize, h0] at hne
  exact Track.encode_ok_iff.1 ⟨written, hw⟩

lemma assigns_values (h : (ofParts d timestamp payload).IsReadable) :
    Assigns d (ofParts d timestamp payload).values := by
  obtain ⟨p, hp, hbytes, hlen, hindex⟩ := exists_sections h
  have hread : ∀ e ∈ (ofParts d timestamp payload).values, ∃ t ∈ d.tracks, t.id = e.1 ∧
      e.2.size ≤ maxIndexed ∧ t.Takes e.2 := by
    rintro ⟨id, v⟩ he
    obtain ⟨t, ht, hid, hheld⟩ := mem_values.1 he
    obtain ⟨i, hi⟩ := List.mem_iff_getElem?.1 ht
    obtain ⟨data, size, w, -, -, hreads⟩ := exists_reads h hp hbytes hlen hindex hi
    rw [hreads.held?] at hheld
    split at hheld
    · cases hheld
    next hne =>
      obtain rfl := Option.some.inj hheld
      have hsize := (Track.of_decodes (Track.decode_eq_ok_iff.1 hreads.value).2).1
      exact ⟨t, ht, hid, hsize ▸ Sections.count_le hreads.size_mem, hreads.takes (by simpa using hne)⟩
  refine ⟨nodup_values _, fun e he => ?_, fun e he => ?_⟩
  · obtain ⟨-, -, -, hsize, -⟩ := hread e he
    exact hsize
  · obtain ⟨t, ht, hid, -, htakes⟩ := hread e he
    exact ⟨t, hid ▸ TrackList.find?_of_mem ht, htakes⟩

lemma fields_of_values (h : (ofParts d timestamp payload).IsReadable) {p : Sections} (hp : p.Valid)
    (hbytes : p.bytes = payload) (hlen : p.fields.length = d.size)
    (hindex : ChunkIndex.decode payload d.size = .ok p.toIndex) :
    let fs := d.tracks.map (fieldOf (ofParts d timestamp payload).values)
    List.Forall₂ Bytes.SameOrShorter (fs.map dataOf) p.fields ∧ fs.map sizeOf = p.counts := by
  intro fs
  have hcounts := Sections.length_counts hp
  have hall : List.Forall₂ (fun f e => (dataOf f).SameOrShorter e.1 ∧ ChunkBuilder.sizeOf f = e.2) fs
      (p.fields.zip p.counts) := by
    refine List.forall₂_iff_get.2 ⟨by simp [fs, hcounts, hlen, TrackList.size], fun i hi hi' => ?_⟩
    have htrack : i < d.tracks.length := by simpa [fs] using hi
    obtain ⟨data, size, v, hdata, hsize, hreads⟩ :=
      exists_reads h hp hbytes hlen hindex (List.getElem?_eq_getElem htrack)
    obtain ⟨hshort, hsizeOf, -⟩ := rewritten hreads.value
      ((lookup_values (List.getElem_mem htrack)).trans hreads.held?)
    obtain ⟨_, rfl⟩ := List.getElem?_eq_some_iff.1 hdata
    obtain ⟨_, rfl⟩ := List.getElem?_eq_some_iff.1 hsize
    simpa [fs] using And.intro hshort hsizeOf
  have hfst : (p.fields.zip p.counts).map Prod.fst = p.fields := List.map_fst_zip (by omega)
  have hsnd : (p.fields.zip p.counts).map Prod.snd = p.counts := List.map_snd_zip (by omega)
  constructor
  · rw [← hfst]
    simp only [List.forall₂_map_left_iff, List.forall₂_map_right_iff]
    exact hall.imp fun _ _ hfe => hfe.1
  · rw [← hsnd, ← List.forall₂_eq_eq_eq]
    simp only [List.forall₂_map_left_iff, List.forall₂_map_right_iff]
    exact hall.imp fun _ _ hfe => hfe.2

lemma lastOffset_values (h : (ofParts d timestamp payload).IsReadable) :
    lastOffset d (ofParts d timestamp payload).values ≤ maxIndexed := by
  obtain ⟨p, hp, hbytes, hlen, hindex⟩ := exists_sections h
  obtain ⟨hfields, -⟩ := fields_of_values h hp hbytes hlen hindex
  have hle := Sections.length_flatten_le (Sections.forall₂_dropLast hfields)
  have hfits : p.fields.dropLast.flatten.length ≤ maxIndexed := by
    have := hp.fits
    rw [Sections.pieces] at this
    cases hf : p.fields with
    | nil => simp
    | cons field fields =>
      rw [hf, List.dropLast_cons_cons, List.flatten_cons, List.length_append] at this
      omega
  rw [← List.map_dropLast, ← List.map_dropLast, List.map_map, ← List.flatMap_def] at hle
  exact Nat.le_trans hle hfits

def repacked (c : Chunk) : Bytes := ChunkBuilder.payload (c.descriptor.tracks.map (fieldOf c.values))

lemma pack_values (h : (ofParts d timestamp payload).IsReadable) (ht : 0 ≤ timestamp)
    (hvs : vs.Perm (ofParts d timestamp payload).values) : pack timestamp vs (empty d) =
      .ok (ofParts d timestamp (ofParts d timestamp payload).repacked) (empty d) := by
  have hassigns := assigns_values h
  have hfield := fieldOf_perm hvs.symm hassigns.nodup
  have hfit := lastOffset_values h
  rw [lastOffset, hfield] at hfit
  rw [repacked, hfield]
  exact pack_empty (hassigns.perm hvs.symm) hfit ht

lemma repacked_sameOrShorter (h : (ofParts d timestamp payload).IsReadable) :
    (ofParts d timestamp payload).repacked.SameOrShorter payload := by
  obtain ⟨p, hp, hbytes, hlen, hindex⟩ := exists_sections h
  obtain ⟨hfields, hsizes⟩ := fields_of_values h hp hbytes hlen hindex
  have hgap : Bytes.SameOrShorter [] p.gap := by
    cases p.gap with
    | nil => exact .refl _
    | cons b bs => exact .inr (by simp)
  have hpacked := Sections.packed_sameOrShorter hp (.cons hgap hfields)
  rw [hbytes, ← hsizes] at hpacked
  rw [repacked, payload_eq_packed]
  exact hpacked

lemma keepsAnswers_of_field? {data data' : Bytes} {size : Nat} {u u' : Chunk}
    (h : field? t.id c = .ok (some ⟨t, data, size⟩) u)
    (h' : field? t.id c' = .ok (some ⟨t, data', size⟩) u')
    (hread : ∀ v, t.Decodes data size v → t.Decodes data' size v) : c.KeepsAnswers c' t.id := by
  have hkeep {α : Type} (read : Field → Except Error α)
      (hr : ∀ a, read ⟨t, data, size⟩ = .ok a → read ⟨t, data', size⟩ = .ok a) (a : Option α)
      (ha : Attempt.outcome (readField? t.id read c) = .ok a) :
      Attempt.outcome (readField? t.id read c') = .ok a := by
    rw [outcome_readField?_field h] at ha
    rw [outcome_readField?_field h']
    cases hra : read ⟨t, data, size⟩ with
    | error e =>
      rw [hra] at ha
      cases ha
    | ok b =>
      rw [hra] at ha
      rw [hr b hra]
      exact ha
  exact ⟨hkeep _ fun _ ha => ha, hkeep _ fun vs => hread (.integers vs),
    hkeep _ fun s => hread (.text s), hkeep _ fun bytes => hread (.binary bytes)⟩

lemma keepsAnswers_repacked (h : (ofParts d timestamp payload).IsReadable) (id : Int32) :
    (ofParts d timestamp payload).KeepsAnswers
      (ofParts d timestamp (ofParts d timestamp payload).repacked) id := by
  cases hfind : d.find? id with
  | none =>
    have habsent (payload : Bytes) : (ofParts d timestamp payload).Lacks id :=
      lacks_of_field? (field?_eq_none hfind)
    obtain ⟨hb, ht, hi, hs⟩ := habsent payload
    obtain ⟨hb', ht', hi', hs'⟩ := habsent (ofParts d timestamp payload).repacked
    constructor
    · rw [hs, hs']; exact fun _ hn => hn
    · rw [hi, hi']; exact fun _ hn => hn
    · rw [ht, ht']; exact fun _ hn => hn
    · rw [hb, hb']; exact fun _ hn => hn
  | some t =>
    obtain rfl := TrackList.id_of_find? hfind
    have ht : t ∈ d.tracks := List.mem_of_find?_eq_some hfind
    obtain ⟨i, hi⟩ := List.mem_iff_getElem?.1 ht
    obtain ⟨p, hp, hbytes, hlen, hindex⟩ := exists_sections h
    obtain ⟨data, size, v, -, -, hreads⟩ := exists_reads h hp hbytes hlen hindex hi
    obtain ⟨-, hsize, hread⟩ := rewritten hreads.value ((lookup_values ht).trans hreads.held?)
    obtain ⟨u, hu⟩ := hreads.field
    obtain ⟨u', hu'⟩ := field?_assigned (assigns_values h) (lastOffset_values h) timestamp ht
    rw [hsize] at hu'
    exact keepsAnswers_of_field? hu hu' hread

lemma KeepsAnswers.value? (h : c.KeepsAnswers c' t.id) {v : Option FieldValue}
    (hv : Attempt.outcome (Chunk.value? t c) = .ok v) : Attempt.outcome (Chunk.value? t c') = .ok v := by
  have hmap {α : Type} {f : Option α → Option FieldValue} {r r' : Except Error (Option α)}
      (hr : ∀ a, r = .ok a → r' = .ok a) (hv : r.map f = .ok v) : r'.map f = .ok v := by
    cases r with
    | error e => cases hv
    | ok a => rwa [hr a rfl]
  cases hk : t.encoding.kind <;> simp only [Chunk.value?, hk, Attempt.outcome_map] at hv ⊢
  · exact hmap h.binary hv
  · exact hmap h.text hv
  · exact hmap h.integers hv

lemma values_eq_of_keepsAnswers (h : c.IsReadable) (hkeeps : ∀ id, c.KeepsAnswers c' id)
    (hd : c'.descriptor = c.descriptor) : c'.IsReadable ∧ c'.values = c.values := by
  have hvalue {t : Track} (ht : t ∈ c.descriptor.tracks) :
      ∃ v, Attempt.outcome (value? t c) = .ok v ∧ Attempt.outcome (value? t c') = .ok v := by
    obtain ⟨v, hv⟩ := h t ht
    exact ⟨v, hv, (hkeeps t.id).value? hv⟩
  constructor
  · intro t ht
    obtain ⟨v, -, hv⟩ := hvalue (hd ▸ ht)
    exact ⟨v, hv⟩
  · rw [values, values, hd]
    apply List.filterMap_congr
    intro t ht
    obtain ⟨v, hv, hv'⟩ := hvalue ht
    simp only [held?, hv, hv']

theorem rebuild_normalises (d : Descriptor) {timestamp : Int64} (ht : 0 ≤ timestamp) {payload : Bytes}
    (h : (ofParts d timestamp payload).IsReadable) {vs : List (Int32 × FieldValue)}
    (hvs : vs.Perm (ofParts d timestamp payload).values) :
    ∃ rebuilt, pack timestamp vs (empty d) = .ok (ofParts d timestamp rebuilt) (empty d) ∧
      (∀ id, (ofParts d timestamp payload).KeepsAnswers (ofParts d timestamp rebuilt) id) ∧
      rebuilt.length ≤ payload.length ∧ (rebuilt.length = payload.length → rebuilt = payload) ∧
      (ofParts d timestamp rebuilt).IsReadable ∧
      ∀ ws, ws.Perm (ofParts d timestamp rebuilt).values →
        pack timestamp ws (empty d) = .ok (ofParts d timestamp rebuilt) (empty d) := by
  have hshort := repacked_sameOrShorter h
  have hkeeps := keepsAnswers_repacked h
  obtain ⟨hreadable, hvalues⟩ := values_eq_of_keepsAnswers h hkeeps rfl
  refine ⟨_, pack_values h ht hvs, hkeeps, hshort.length_le, fun hlen => ?_, hreadable, fun ws hws => ?_⟩
  · exact hshort.resolve_right fun hlt => absurd hlen (Nat.ne_of_lt hlt)
  · rw [hvalues] at hws
    exact pack_values h ht hws

def sampleTracks : Descriptor where
  tracks := [⟨1, .deltaVarbyte⟩, ⟨2, .noData⟩, ⟨3, .text⟩]
  ascending := by decide
  length_lt := by decide
  scope := none
  persistedId := 0

/-- A byte in front of the first field, and codes that are longer than need be. -/
def sampleLoose : Bytes := [1, 0x82, 0x00, 0, 1, 0x80, 0x00, 1, 0xEE, 0x85, 0x00, 0x41]

def sampleTight : Bytes := [0, 1, 0, 1, 0, 1, 5, 0x41]

theorem rebuild_normalises_sample :
    (ofParts sampleTracks 7 sampleLoose).IsReadable ∧
      (ofParts sampleTracks 7 sampleLoose).values = [(1, .integers [5]), (3, .text "A")] ∧
      pack 7 [(3, .text "A"), (1, .integers [5])] (empty sampleTracks) =
        .ok (ofParts sampleTracks 7 sampleTight) (empty sampleTracks) ∧
      (∀ id, (ofParts sampleTracks 7 sampleLoose).KeepsAnswers (ofParts sampleTracks 7 sampleTight) id) ∧
      (ofParts sampleTracks 7 sampleTight).IsReadable := by
  have hreadable : (ofParts sampleTracks 7 sampleLoose).IsReadable := by
    intro t ht
    obtain rfl | rfl | rfl : t = ⟨1, .deltaVarbyte⟩ ∨ t = ⟨2, .noData⟩ ∨ t = ⟨3, .text⟩ := by
      simpa [ofParts, sampleTracks] using ht
    · exact ⟨some (.integers [5]), by decide +kernel⟩
    · exact ⟨some (.binary []), by decide +kernel⟩
    · exact ⟨some (.text "A"), by decide +kernel⟩
  have hvalues : (ofParts sampleTracks 7 sampleLoose).values = [(1, .integers [5]), (3, .text "A")] := by
    decide +kernel
  have hvs : [(3, .text "A"), (1, .integers [5])].Perm (ofParts sampleTracks 7 sampleLoose).values :=
    hvalues ▸ .swap _ _ _
  have hpayload : (Attempt.outcome (pack 7 [(3, .text "A"), (1, .integers [5])] (empty sampleTracks))).map
      Chunk.payload = .ok sampleTight := by decide +kernel
  obtain ⟨rebuilt, hpack, hkeeps, -, -, hread, -⟩ := rebuild_normalises sampleTracks (by decide)
    hreadable hvs
  rw [hpack] at hpayload
  obtain rfl : rebuilt = sampleTight := Except.ok.inj hpayload
  exact ⟨hreadable, hvalues, hpack, hkeeps, hread⟩

end Chunk
end ChunkStore
