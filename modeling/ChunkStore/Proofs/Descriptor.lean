import ChunkStore.Proofs.Container
import ChunkStore.Proofs.TrackList

/-!
The written form of a descriptor, part by part. What is read is of this form and nothing else is.
Other forms of the same tracks are longer than the one that is written.
-/

namespace ChunkStore

namespace Encoding

lemma tag_bounds : ∀ e : Encoding, 0 ≤ e.tag ∧ e.tag ≤ 5 := by
  intro e
  cases e <;> decide

lemma exists_tag {v : Int32} (h : 0 ≤ v ∧ v ≤ 5) : ∃ e : Encoding, e.tag = v := by
  obtain ⟨hlow, hhigh⟩ := h
  rw [Int32.le_iff_toInt_le] at hlow hhigh
  have hzero : (0 : Int32).toInt = 0 := rfl
  have hfive : (5 : Int32).toInt = 5 := rfl
  obtain h | h | h | h | h | h : v.toInt = 0 ∨ v.toInt = 1 ∨ v.toInt = 2 ∨ v.toInt = 3 ∨
      v.toInt = 4 ∨ v.toInt = 5 := by omega
  · exact ⟨.noData, Int32.toInt_inj.1 h.symm⟩
  · exact ⟨.binary, Int32.toInt_inj.1 h.symm⟩
  · exact ⟨.text, Int32.toInt_inj.1 h.symm⟩
  · exact ⟨.varbyte, Int32.toInt_inj.1 h.symm⟩
  · exact ⟨.deltaVarbyte, Int32.toInt_inj.1 h.symm⟩
  · exact ⟨.centerFiltered, Int32.toInt_inj.1 h.symm⟩

lemma exists_tags {vs : List Int32} (h : ∀ v ∈ vs, 0 ≤ v ∧ v ≤ 5) :
    ∃ es : List Encoding, es.map tag = vs := by
  induction vs with
  | nil => exact ⟨[], rfl⟩
  | cons v vs ih =>
    obtain ⟨e, rfl⟩ := exists_tag (h v (by simp))
    obtain ⟨es, rfl⟩ := ih fun w hw => h w (by simp [hw])
    exact ⟨e :: es, rfl⟩

end Encoding

structure Layout where
  ids : List Bytes
  tags : List Bytes

namespace Layout

def bytes (p : Layout) : Bytes := Bytes.ofWord p.ids.length ++ p.ids.flatten ++ p.tags.flatten

/-- Every id is the sum of the integers that are written up to it, which wraps around. -/
def trackIds (p : Layout) : List Int32 := ((p.ids.map Varbyte.value).scanl (· + ·) 0).tail

structure Valid (p : Layout) : Prop where
  count : p.ids.length < 4294967296
  pairs : p.tags.length = p.ids.length
  codes : ∀ code ∈ p.ids ++ p.tags, Varbyte.IsCode 5 code
  ascending : p.trackIds.Pairwise (· < ·)
  known : ∀ code ∈ p.tags, 0 ≤ Varbyte.value code ∧ Varbyte.value code ≤ 5

structure Describes (p : Layout) (l : TrackList) : Prop where
  ids : l.tracks.map Track.id = p.trackIds
  tags : l.tracks.map (fun t => t.encoding.tag) = p.tags.map Varbyte.value

variable {p : Layout} {l : TrackList} {label : UInt64} {bs : Bytes}

lemma trackIds_eq (p : Layout) : p.trackIds = Codec.delta.restore (p.ids.map Varbyte.value) :=
  (Codec.sums_eq_scanl 0 _).symm

lemma length_trackIds (p : Layout) : p.trackIds.length = p.ids.length := by
  rw [trackIds_eq, Codec.length_restore, List.length_map]

lemma Describes.length_ids (h : p.Describes l) : p.ids.length = l.size := by
  rw [← p.length_trackIds, ← h.ids, List.length_map, TrackList.size]

lemma Describes.length_tags (h : p.Describes l) : p.tags.length = l.size := by
  have hlen := congrArg List.length h.tags
  rw [List.length_map, List.length_map] at hlen
  exact hlen.symm

lemma Describes.valid (h : p.Describes l) (hcodes : ∀ code ∈ p.ids ++ p.tags, Varbyte.IsCode 5 code) :
    p.Valid := by
  refine ⟨?_, h.length_tags.trans h.length_ids.symm, hcodes, ?_, fun code hc => ?_⟩
  · rw [h.length_ids]
    exact l.length_lt
  · rw [← h.ids]
    exact List.pairwise_map.2 l.ascending
  · have hv := List.mem_map_of_mem (f := Varbyte.value) hc
    rw [← h.tags] at hv
    obtain ⟨t, -, ht⟩ := List.mem_map.1 hv
    rw [← ht]
    exact t.encoding.tag_bounds

lemma Valid.describes (h : p.Valid) : ∃ l : TrackList, p.Describes l := by
  have hknown : ∀ v ∈ p.tags.map Varbyte.value, 0 ≤ v ∧ v ≤ 5 := fun v hv => by
    obtain ⟨code, hc, rfl⟩ := List.mem_map.1 hv
    exact h.known code hc
  obtain ⟨es, hes⟩ := Encoding.exists_tags hknown
  have hlen : es.length = p.trackIds.length := by
    rw [p.length_trackIds, ← h.pairs]
    simpa using congrArg List.length hes
  let tracks := (p.trackIds.zip es).map fun x => Track.mk x.1 x.2
  have hids : tracks.map Track.id = p.trackIds := by
    rw [List.map_map]
    exact List.map_fst_zip (by omega)
  have htags : tracks.map (fun t => t.encoding.tag) = p.tags.map Varbyte.value := by
    calc tracks.map (fun t => t.encoding.tag)
      _ = ((p.trackIds.zip es).map Prod.snd).map Encoding.tag := by
        rw [List.map_map, List.map_map]
        rfl
      _ = p.tags.map Varbyte.value := by rw [List.map_snd_zip (by omega), hes]
  have hasc : tracks.Pairwise fun a b => a.id < b.id := by
    rw [← List.pairwise_map (f := Track.id), hids]
    exact h.ascending
  refine ⟨⟨tracks, hasc, ?_⟩, hids, htags⟩
  rw [← List.length_map (f := Track.id), hids, p.length_trackIds]
  exact h.count

theorem decode_eq_ok_iff : TrackList.decode label bs = .ok l ↔
    ∃ p : Layout, p.Valid ∧ p.bytes = bs ∧ p.Describes l := by
  rw [TrackList.decode_eq_ok_iff]
  constructor
  · rintro ⟨rest, mid, hword, hids, htags⟩
    obtain ⟨-, rfl⟩ := Bytes.eq_ofWord_of_word? hword
    obtain ⟨ids, hlen, hcodes, hi, rfl⟩ := Codec.split_eq_ok_iff.1 hids
    obtain ⟨tags, -, hcodes', ht, rfl⟩ := Codec.split_eq_ok_iff.1 htags
    let p : Layout := ⟨ids, tags⟩
    have hd : p.Describes l := ⟨by rw [trackIds_eq, hi], ht.symm⟩
    refine ⟨p, hd.valid fun code hc => ?_, ?_, hd⟩
    · exact (List.mem_append.1 hc).elim (hcodes code) (hcodes' code)
    · rw [bytes, hlen, List.append_nil, List.append_assoc]
  · rintro ⟨p, hp, rfl, hd⟩
    refine ⟨p.ids.flatten ++ p.tags.flatten, p.tags.flatten, ?_, ?_, ?_⟩
    · rw [bytes, List.append_assoc, hd.length_ids, Bytes.word?_ofWord_append (by exact l.length_lt)]
    · refine Codec.split_eq_ok_iff.2 ⟨p.ids, hd.length_ids, fun c hc => ?_, ?_, rfl⟩
      · exact hp.codes c (List.mem_append_left _ hc)
      · rw [hd.ids, trackIds_eq]
    · refine Codec.split_eq_ok_iff.2 ⟨p.tags, hd.length_tags, fun c hc => ?_, hd.tags.symm, ?_⟩
      · exact hp.codes c (List.mem_append_right _ hc)
      · rw [List.append_nil]

lemma Describes.encode (h : p.Describes l) : l.encode =
    Bytes.ofWord p.ids.length ++ Varbyte.encodeAll (p.ids.map Varbyte.value) ++
      Varbyte.encodeAll (p.tags.map Varbyte.value) := by
  rw [TrackList.encode, h.ids, h.tags, trackIds_eq, h.length_ids, Codec.compress, Codec.compress,
    Codec.prepare_restore]
  rfl

lemma Describes.sameOrShorter (h : p.Describes l) (hp : p.Valid) : l.encode.SameOrShorter p.bytes := by
  have hids := Varbyte.encodeAll_values fun c hc => hp.codes c (List.mem_append_left _ hc)
  have htags := Varbyte.encodeAll_values fun c hc => hp.codes c (List.mem_append_right _ hc)
  rw [h.encode, bytes]
  exact ((Bytes.SameOrShorter.refl _).append hids).append htags

end Layout

namespace Descriptor

variable {bs : Bytes} {id : UInt64} {scope : Option StoreId} {d e : Descriptor}

lemma decode_eq_ok_iff_layout : decode bs id scope = .ok d ↔
    (∃ p : Layout, p.Valid ∧ p.bytes = bs ∧ p.Describes d.toTrackList) ∧ d.scope = scope ∧
      d.persistedId = id := by
  rw [decode_eq_ok, Layout.decode_eq_ok_iff]

lemma decode_encode (d : Descriptor) (id : UInt64) (scope : Option StoreId) :
    decode d.encode id scope = .ok { d with scope := scope, persistedId := id } :=
  decode_eq_ok.2 ⟨TrackList.decode_encode id d.toTrackList, rfl, rfl⟩

lemma exists_error {r : Except Error Descriptor} (h : ∀ d, r ≠ .ok d) : ∃ e, r = .error e := by
  cases r with
  | ok d => exact absurd rfl (h d)
  | error e => exact ⟨e, rfl⟩

lemma decode_append_error (h : decode bs id scope = .ok d) {tail : Bytes} (ht : tail ≠ []) :
    ∃ e, decode (bs ++ tail) id scope = .error e := by
  apply exists_error
  intro d' hd'
  exact TrackList.decode_append_ne_ok (decode_eq_ok.1 h).1 ht (decode_eq_ok.1 hd').1

lemma decode_prefix_error {front tail : Bytes} (h : decode (front ++ tail) id scope = .ok d)
    (ht : tail ≠ []) : ∃ e, decode front id scope = .error e := by
  apply exists_error
  intro d' hd'
  obtain ⟨e, he⟩ := decode_append_error hd' ht
  rw [h] at he
  cases he

lemma corruption_of_decode {e : Error} (h : decode bs id scope = .error e) :
    (∃ c, e = .corrupt c) ∨ ∃ tag, e = .unknownEncoding tag := by
  rw [decode] at h
  split at h
  · cases h
  next hl =>
    obtain rfl := Except.error.inj h
    exact TrackList.corruption_of_decode hl

lemma encode_sameOrShorter (h : decode bs id scope = .ok d) : d.encode.SameOrShorter bs := by
  obtain ⟨⟨p, hp, rfl, hd⟩, -⟩ := decode_eq_ok_iff_layout.1 h
  exact hd.sameOrShorter hp

lemma encode_eq_iff : d.encode = e.encode ↔ d.tracks = e.tracks := by
  constructor
  · intro h
    rw [TrackList.encode_injective h]
  · intro h
    rw [TrackList.tracks_injective h]

theorem decode_exactly_layouts (bs : Bytes) (id : UInt64) (scope : Option StoreId) :
    ((∃ d, decode bs id scope = .ok d) ↔ ∃ p : Layout, p.Valid ∧ p.bytes = bs) ∧
      (∀ p : Layout, p.Valid → p.bytes = bs → ∃ d, decode bs id scope = .ok d ∧
        p.Describes d.toTrackList ∧ d.scope = scope ∧ d.persistedId = id ∧
        (∀ i t, d.tracks[i]? = some t ↔ d.find? t.id = some t ∧ d.indexOf? t.id = some i) ∧
        ∀ track, (d.find? track).isSome ↔ track ∈ p.trackIds) ∧
      (∀ e, decode bs id scope = .error e → (∃ c, e = .corrupt c) ∨ ∃ tag, e = .unknownEncoding tag) ∧
      (∀ d, decode bs id scope = .ok d →
        d.encode.length ≤ bs.length ∧ (d.encode.length = bs.length → d.encode = bs)) ∧
      ∀ d : Descriptor, decode d.encode id scope = .ok { d with scope := scope, persistedId := id } ∧
        (∀ front tail, d.encode = front ++ tail → tail ≠ [] →
          ∃ e, decode front id scope = .error e) ∧
        (∀ tail, tail ≠ [] → ∃ e, decode (d.encode ++ tail) id scope = .error e) ∧
        ∀ d' : Descriptor, d.encode = d'.encode ↔ d.tracks = d'.tracks := by
  refine ⟨⟨?_, ?_⟩, ?_, fun e => corruption_of_decode, fun d hd => ?_, fun d => ⟨?_, ?_, ?_, ?_⟩⟩
  · rintro ⟨d, hd⟩
    obtain ⟨⟨p, hp, hbytes, -⟩, -⟩ := decode_eq_ok_iff_layout.1 hd
    exact ⟨p, hp, hbytes⟩
  · rintro ⟨p, hp, hbytes⟩
    obtain ⟨l, hl⟩ := hp.describes
    exact ⟨⟨l, scope, id⟩, decode_eq_ok_iff_layout.2 ⟨⟨p, hp, hbytes, hl⟩, rfl, rfl⟩⟩
  · intro p hp hbytes
    obtain ⟨l, hl⟩ := hp.describes
    refine ⟨⟨l, scope, id⟩, decode_eq_ok_iff_layout.2 ⟨⟨p, hp, hbytes, hl⟩, rfl, rfl⟩, hl, rfl, rfl,
      fun i t => TrackList.getElem?_eq_some_iff, fun track => ?_⟩
    rw [← hl.ids]
    exact TrackList.isSome_find?_iff
  · obtain h | h := encode_sameOrShorter hd
    · exact ⟨Nat.le_of_eq (congrArg List.length h), fun _ => h⟩
    · exact ⟨Nat.le_of_lt h, fun heq => absurd heq (Nat.ne_of_lt h)⟩
  · exact d.decode_encode id scope
  · intro front tail h ht
    have hd := d.decode_encode id scope
    rw [h] at hd
    exact decode_prefix_error hd ht
  · intro tail ht
    exact decode_append_error (d.decode_encode id scope) ht
  · intro d'
    exact encode_eq_iff

def sampleLayout : Layout := ⟨[[0xFD, 0xFF, 0xFF, 0xFF, 0x0F], [0x88, 0x00]], [[0x02], [0x03]]⟩

lemma valid_sampleLayout : sampleLayout.Valid := by
  refine ⟨by decide, rfl, ?_, by decide, by decide⟩
  intro code hc
  simp only [sampleLayout, List.mem_append, List.mem_cons, List.not_mem_nil, or_false] at hc
  obtain (rfl | rfl) | rfl | rfl := hc <;> exact ⟨by simp, by simp, by simp, by simp, by simp⟩

def sampleDescriptor : Descriptor :=
  ⟨⟨[⟨-3, .text⟩, ⟨5, .varbyte⟩], by decide, by decide⟩, none, 7⟩

theorem decode_exactly_layouts_sample :
    sampleLayout.Valid ∧ decode sampleLayout.bytes 7 none = .ok sampleDescriptor ∧
      sampleLayout.Describes sampleDescriptor.toTrackList ∧
      sampleDescriptor.encode.length ≤ sampleLayout.bytes.length ∧
      ∃ e, decode (sampleDescriptor.encode ++ [0]) 7 none = .error e := by
  have hdecode : decode sampleLayout.bytes 7 none = .ok sampleDescriptor := rfl
  obtain ⟨-, hlayout, -, hshort, hencode⟩ := decode_exactly_layouts sampleLayout.bytes 7 none
  obtain ⟨d, hd, hdescribes, -⟩ := hlayout sampleLayout valid_sampleLayout rfl
  obtain rfl : sampleDescriptor = d := Except.ok.inj (hdecode.symm.trans hd)
  exact ⟨valid_sampleLayout, hdecode, hdescribes, (hshort _ hd).1,
    (hencode sampleDescriptor).2.2.1 [0] (by simp)⟩

end Descriptor
end ChunkStore
