import ChunkStore.Proofs.Chunk.Calls
import ChunkStore.Proofs.Chunk.Values

/-!
A payload that was cut short or continued is noticed. If its index can still be read, then the last
field shows it, as that is the one that ends where the payload ends.
-/

namespace ChunkStore

def Bytes.IsCut (part whole : Bytes) : Prop := ∃ rest, rest ≠ [] ∧ whole = part ++ rest

lemma Bytes.IsCut.length_lt {part whole : Bytes} (h : part.IsCut whole) :
    part.length < whole.length := by
  obtain ⟨rest, hrest, rfl⟩ := h
  simpa using List.length_pos_iff.2 hrest

lemma Bytes.IsCut.of_append {part front back : Bytes} (h : part.IsCut (front ++ back)) :
    part.IsCut front ∨ ∃ mid, part = front ++ mid ∧ mid.IsCut back := by
  obtain ⟨rest, hrest, hwhole⟩ := h
  rcases List.append_eq_append_iff.1 hwhole with ⟨mid, hpart, hback⟩ | ⟨mid, hfront, rfl⟩
  · exact .inr ⟨mid, hpart, rest, hrest, hback⟩
  · by_cases hmid : mid = []
    · subst hmid
      exact .inr ⟨[], by simpa using hfront.symm, back, hrest, rfl⟩
    · exact .inl ⟨mid, hmid, hfront⟩

namespace Codec

lemma decompress_cut {codec : Codec} {vs : List Int32} {part : Bytes}
    (h : part.IsCut (codec.compress vs)) (out : List Int32) :
    ∃ ws c, codec.decompress part vs.length out = (ws, .error (.corrupt c)) := by
  have hread := codec.decompress_compress_append vs out []
  have hcut := decompress_take_error hread h.length_lt
  obtain ⟨rest, -, hwhole⟩ := h
  rwa [List.append_nil, hwhole, List.take_left] at hcut

lemma split_cut {codec : Codec} {vs : List Int32} {part : Bytes}
    (h : part.IsCut (codec.compress vs)) :
    ∃ c, codec.split part vs.length = .error (.corrupt c) := by
  obtain ⟨ws, c, hc⟩ := decompress_cut h []
  exact ⟨c, by rw [split, hc]⟩

end Codec

namespace ChunkIndex

open ChunkBuilder (maxIndexed)

variable {os ns : List Nat}

lemma decode_cut (hlen : os.length = ns.length) {part : Bytes} (h : part.IsCut (encode os ns)) :
    ∃ c, decode part ns.length = .error (.corrupt c) := by
  have hos : (os.map Int32.ofNat).length = ns.length := by rw [List.length_map, hlen]
  obtain hoffsets | ⟨mid, rfl, hsizes⟩ := Bytes.IsCut.of_append h
  · obtain ⟨c, hc⟩ := Codec.split_cut hoffsets
    rw [hos] at hc
    exact ⟨c, by rw [decode, hc]; rfl⟩
  · have hread := Codec.delta.split_compress_append (os.map Int32.ofNat) mid
    obtain ⟨c, hc⟩ := Codec.split_cut hsizes
    rw [hos] at hread
    rw [List.length_map] at hc
    exact ⟨c, by simp [decode, hread, hc, bind, Except.bind]⟩

lemma offsets_beyond {region : Nat} (hmax : ∀ o ∈ os, o ≤ maxIndexed) (h : ∃ o ∈ os, region < o)
    (previous : Nat) : ∃ c, offsets region previous (os.map Int32.ofNat) = .error (.corrupt c) := by
  induction os generalizing previous with
  | nil => simp at h
  | cons o os ih =>
    have ho := hmax o (by simp)
    rw [List.map_cons, offsets]
    simp only [toNatClampNeg_ofNat ho, if_neg (not_ofNat_lt_zero ho)]
    split
    · exact ⟨_, rfl⟩
    next hregion =>
      split
      · exact ⟨_, rfl⟩
      · obtain ⟨o', ho', hlt⟩ := h
        have hos : o' ∈ os := (List.mem_cons.1 ho').resolve_left fun he => hregion (he ▸ hlt)
        obtain ⟨c, hc⟩ := ih (fun o ho => hmax o (by simp [ho])) ⟨o', hos, hlt⟩ o
        exact ⟨c, by rw [hc]⟩

lemma decode_beyond {region : Bytes} (hlen : os.length = ns.length)
    (hmax : ∀ o ∈ os, o ≤ maxIndexed) (h : ∃ o ∈ os, region.length < o) :
    ∃ c, decode (encode os ns ++ region) ns.length = .error (.corrupt c) := by
  have hoffsets := Codec.delta.split_compress_append (os.map Int32.ofNat)
    (Codec.plain.compress (ns.map Int32.ofNat) ++ region)
  have hsizes := Codec.plain.split_compress_append (ns.map Int32.ofNat) region
  obtain ⟨c, hc⟩ := offsets_beyond hmax h 0
  rw [List.length_map, hlen] at hoffsets
  rw [List.length_map] at hsizes
  exact ⟨c, by simp [decode, encode, hoffsets, hsizes, hc, bind, Except.bind]⟩

lemma layOut_last (start total o n : Nat) : ∀ {os ns : List Nat}, os.length = ns.length →
    (layOut start total (os ++ [o]) (ns ++ [n]))[os.length]? = some ⟨start + o, total, n⟩
  | [], [], _ => rfl
  | o' :: os, n' :: ns, h => by
    rw [List.cons_append, List.cons_append, layOut, List.length_cons, List.getElem?_cons_succ]
    exact layOut_last start total o n (by simpa using h)

end ChunkIndex

namespace Track

variable {t : Track} {v : FieldValue} {data : Bytes}

lemma decode_mismatch {size : Nat} (h : t.encoding = .binary ∨ t.encoding = .text)
    (hne : data.length ≠ size) : ∃ c, t.decode data size = .error (.corrupt c) := by
  refine ⟨.lengthMismatch t.id data.length size, ?_⟩
  rcases h with h | h
  · simp [decode, Encoding.kind, decodeBinary, readsEmpty, checkKind, checkSize, ValueKind.accepts, h,
      hne, bind, Except.bind]
  · simp [decode, Encoding.kind, decodeText, readsEmpty, checkKind, checkSize, ValueKind.accepts, h,
      hne, bind, Except.bind]

lemma decode_integers_error {codec : Codec} {size : Nat} {ws : List Int32} {e : Error}
    (hc : Codec.ofEncoding t.encoding = .ok codec)
    (h : codec.decompress data size [] = (ws, .error e)) : t.decode data size = .error e := by
  cases he : t.encoding <;> rw [he] at hc <;> cases hc <;>
    simp [decode, Encoding.kind, decodeIntegers, readsEmpty, checkKind, ValueKind.accepts,
      Encoding.isInteger, Codec.ofEncoding, he, h, bind, Except.bind]

lemma decode_integers_unused {codec : Codec} {size n : Nat} {ws : List Int32}
    (hc : Codec.ofEncoding t.encoding = .ok codec)
    (h : codec.decompress data size [] = (ws, .ok n)) (hn : n ≠ data.length) :
    ∃ c, t.decode data size = .error (.corrupt c) := by
  refine ⟨.unusedBytes t.id size n data.length, ?_⟩
  cases he : t.encoding <;> rw [he] at hc <;> cases hc <;>
    simp [decode, Encoding.kind, decodeIntegers, readsEmpty, checkKind, ValueKind.accepts,
      Encoding.isInteger, Codec.ofEncoding, he, h, hn, bind, Except.bind]

lemma decode_valueless {size : Nat} (h : t.encoding = .noData ∨ t.encoding = .centerFiltered)
    (hdata : data ≠ []) : ∃ e, t.decode data size = .error e := by
  refine ⟨.unsupportedEncoding t.encoding, ?_⟩
  rcases h with h | h
  · simp [decode, Encoding.kind, decodeBinary, readsEmpty, checkKind, ValueKind.accepts, h, hdata,
      bind, Except.bind]
  · simp [decode, Encoding.kind, decodeIntegers, readsEmpty, checkKind, ValueKind.accepts,
      Encoding.isInteger, Codec.ofEncoding, h, hdata, bind, Except.bind]

lemma decode_cut (h : t.encode v = .ok data) {part : Bytes} (hpart : part.IsCut data) :
    ∃ c, t.decode part v.size = .error (.corrupt c) := by
  have ht : t.Takes v := encode_ok_iff.1 ⟨data, h⟩
  have hlt := hpart.length_lt
  cases v with
  | binary bytes =>
    obtain rfl : bytes = data := by simpa [encode_binary ht] using h
    exact decode_mismatch (.inl ht) hlt.ne
  | text s =>
    obtain rfl : Utf8.ofString s = data := by simpa [encode_text ht] using h
    exact decode_mismatch (.inr ht) hlt.ne
  | integers vs =>
    obtain ⟨codec, hc⟩ := codec_of_takes ht
    obtain rfl : codec.compress vs = data := by simpa [encode_integers hc] using h
    obtain ⟨ws, c, hread⟩ := Codec.decompress_cut hpart []
    exact ⟨c, decode_integers_error hc hread⟩

lemma decode_continued (h : t.encode v = .ok data) {more : Bytes} (hmore : more ≠ []) :
    ∃ c, t.decode (data ++ more) v.size = .error (.corrupt c) := by
  have ht : t.Takes v := encode_ok_iff.1 ⟨data, h⟩
  have hlen : data.length < (data ++ more).length := by
    simpa using List.length_pos_iff.2 hmore
  cases v with
  | binary bytes =>
    obtain rfl : bytes = data := by simpa [encode_binary ht] using h
    exact decode_mismatch (.inl ht) hlen.ne'
  | text s =>
    obtain rfl : Utf8.ofString s = data := by simpa [encode_text ht] using h
    exact decode_mismatch (.inr ht) hlen.ne'
  | integers vs =>
    obtain ⟨codec, hc⟩ := codec_of_takes ht
    obtain rfl : codec.compress vs = data := by simpa [encode_integers hc] using h
    exact decode_integers_unused hc (codec.decompress_compress_append vs [] more) hlen.ne

lemma decode_unset (t : Track) {more : Bytes} (hmore : more ≠ []) :
    ∃ e, t.decode more 0 = .error e := by
  have hempty {v : FieldValue} (h : t.encode v = .ok []) (hv : v.size = 0) :
      ∃ e, t.decode more 0 = .error e := by
    obtain ⟨c, hc⟩ := decode_continued h hmore
    rw [hv] at hc
    exact ⟨_, hc⟩
  cases he : t.encoding with
  | noData => exact decode_valueless (.inl he) hmore
  | centerFiltered => exact decode_valueless (.inr he) hmore
  | binary => exact hempty (encode_binary he []) rfl
  | text => exact hempty (encode_text he "") rfl
  | varbyte =>
    have hc : Codec.ofEncoding t.encoding = .ok .plain := by rw [he]; rfl
    exact hempty (encode_integers hc []) rfl
  | deltaVarbyte =>
    have hc : Codec.ofEncoding t.encoding = .ok .delta := by rw [he]; rfl
    exact hempty (encode_integers hc []) rfl

end Track

namespace ChunkBuilder

variable {d : Descriptor} {timestamp : Option Int64} {vs : List (Int32 × FieldValue)}

lemma encode_of_fieldOf {t : Track} {f : EncodedField} (h : fieldOf vs t = some f) :
    ∃ v, t.encode v = .ok f.data ∧ v.size = f.size := by
  rw [fieldOf] at h
  obtain ⟨v, -, hv⟩ := Option.bind_eq_some_iff.1 h
  split at hv
  next data hdata =>
    obtain rfl := Option.some.inj hv
    exact ⟨v, hdata, rfl⟩
  · cases hv

def front (fs : List (Option EncodedField)) : Bytes :=
  ChunkIndex.encode (offsets 0 fs) (fs.map sizeOf)

lemma payload_eq (fs : List (Option EncodedField)) : payload fs = front fs ++ fs.flatMap dataOf := rfl

lemma slice_behind (front region : Bytes) (n : Nat) :
    (front ++ region).slice (front.length + n) (front ++ region).length = region.drop n := by
  rw [Bytes.slice, List.drop_length_add_append]
  apply List.take_of_length_le
  simp only [List.length_drop, List.length_append]
  omega

structure Packs (d : Descriptor) (t : Track) (gs : List (Option EncodedField))
    (f : Option EncodedField) : Prop where
  last : d.tracks[gs.length]? = some t
  size : d.size = (gs ++ [f]).length
  offset_le : ∀ o ∈ offsets 0 (gs ++ [f]), o ≤ maxIndexed
  size_le : ∀ g ∈ gs ++ [f], sizeOf g ≤ maxIndexed
  written : ∀ g ∈ f, ∃ v, t.encode v = .ok g.data ∧ v.size = g.size

namespace Packs

variable {t : Track} {gs : List (Option EncodedField)} {f : Option EncodedField}

lemma mem (h : Packs d t gs f) : t ∈ d.tracks := List.mem_of_getElem? h.last

lemma corrupt (h : Packs d t gs f) (timestamp : Int64) {payload : Bytes} {c : Corruption}
    (hc : ChunkIndex.decode payload (gs ++ [f]).length = .error (.corrupt c)) :
    Attempt.outcome (Chunk.value? t (.ofParts d timestamp payload)) = .error (.corrupt c) := by
  rw [← h.size] at hc
  exact Chunk.value?_error (Chunk.field?_corrupt (TrackList.find?_of_mem h.mem) hc)

lemma decode_front (h : Packs d t gs f) {region : Bytes}
    (hregion : ∀ o ∈ offsets 0 (gs ++ [f]), o ≤ region.length) :
    ChunkIndex.decode (front (gs ++ [f]) ++ region) d.size = .ok ⟨(front (gs ++ [f])).length,
      ChunkIndex.layOut (front (gs ++ [f])).length (front (gs ++ [f]) ++ region).length
        (offsets 0 (gs ++ [f])) ((gs ++ [f]).map sizeOf)⟩ := by
  have hsizes : ∀ n ∈ (gs ++ [f]).map sizeOf, n ≤ maxIndexed := by
    simpa only [List.forall_mem_map] using h.size_le
  have hindex := ChunkIndex.decode_encode_append region (by simp) (pairwise_offsets 0 (gs ++ [f]))
    hregion h.offset_le hsizes
  rwa [List.length_map, ← h.size] at hindex

lemma value?_last (h : Packs d t gs f) (timestamp : Int64) {region : Bytes}
    (hregion : ∀ o ∈ offsets 0 (gs ++ [f]), o ≤ region.length) :
    Attempt.outcome (Chunk.value? t (.ofParts d timestamp (front (gs ++ [f]) ++ region))) =
      (t.decode (region.drop (gs.flatMap dataOf).length) (sizeOf f)).map some := by
  have hspan : (ChunkIndex.layOut (front (gs ++ [f])).length (front (gs ++ [f]) ++ region).length
      (offsets 0 (gs ++ [f])) ((gs ++ [f]).map sizeOf))[gs.length]? =
        some ⟨(front (gs ++ [f])).length + (gs.flatMap dataOf).length,
          (front (gs ++ [f]) ++ region).length, sizeOf f⟩ := by
    have hlen : (offsets 0 gs).length = (gs.map sizeOf).length := by simp
    have hlast := ChunkIndex.layOut_last (front (gs ++ [f])).length
      (front (gs ++ [f]) ++ region).length (gs.flatMap dataOf).length (sizeOf f) hlen
    rw [length_offsets] at hlast
    simpa only [offsets_concat, List.map_append, List.map_cons, List.map_nil, Nat.zero_add] using hlast
  have hfield := Chunk.field?_ofParts (t := timestamp) (TrackList.find?_of_mem h.mem)
    (TrackList.indexOf?_of_getElem? h.last) (h.decode_front hregion) hspan
  have hdata := slice_behind (front (gs ++ [f])) region (gs.flatMap dataOf).length
  exact (Chunk.value?_field hfield).trans
    (congrArg (fun data => (t.decode data (sizeOf f)).map some) hdata)

lemma cut (h : Packs d t gs f) (timestamp : Int64) {part : Bytes}
    (hpart : part.IsCut (payload (gs ++ [f]))) :
    ∃ c, Attempt.outcome (Chunk.value? t (.ofParts d timestamp part)) = .error (.corrupt c) := by
  rw [payload_eq] at hpart
  obtain hfront | ⟨mid, rfl, hmid⟩ := hpart.of_append
  · obtain ⟨c, hc⟩ := ChunkIndex.decode_cut (by simp) hfront
    rw [List.length_map] at hc
    exact ⟨c, h.corrupt timestamp hc⟩
  by_cases hregion : ∀ o ∈ offsets 0 (gs ++ [f]), o ≤ mid.length
  · -- only bytes of the last field are missing
    have hlast : (gs.flatMap dataOf).length ≤ mid.length := by
      apply hregion
      rw [offsets_concat, Nat.zero_add]
      simp
    rw [List.flatMap_append] at hmid
    obtain hbefore | ⟨rest, rfl, hrest⟩ := hmid.of_append
    · have := hbefore.length_lt
      omega
    · rw [h.value?_last timestamp hregion, List.drop_left]
      cases f with
      | none =>
        have := hrest.length_lt
        simp [dataOf] at this
      | some g =>
        obtain ⟨v, hv, hsize⟩ := h.written g rfl
        have hdata : [some g].flatMap dataOf = g.data := by simp [dataOf]
        rw [hdata] at hrest
        obtain ⟨c, hc⟩ := Track.decode_cut hv hrest
        rw [hsize] at hc
        exact ⟨c, congrArg (Except.map some) hc⟩
  · have hbeyond : ∃ o ∈ offsets 0 (gs ++ [f]), mid.length < o := by simpa using hregion
    have hlen : (offsets 0 (gs ++ [f])).length = ((gs ++ [f]).map sizeOf).length := by simp
    obtain ⟨c, hc⟩ := ChunkIndex.decode_beyond hlen h.offset_le hbeyond
    rw [List.length_map] at hc
    exact ⟨c, h.corrupt timestamp hc⟩

lemma continued (h : Packs d t gs f) (timestamp : Int64) {more : Bytes} (hmore : more ≠ []) :
    ∃ e, Attempt.outcome (Chunk.value? t (.ofParts d timestamp (payload (gs ++ [f]) ++ more))) =
      .error e := by
  have hregion : ∀ o ∈ offsets 0 (gs ++ [f]), o ≤ ((gs ++ [f]).flatMap dataOf ++ more).length := by
    intro o ho
    have := (le_of_mem_offsets ho).2
    rw [List.length_append]
    omega
  rw [payload_eq, List.append_assoc, h.value?_last timestamp hregion, List.flatMap_append,
    List.append_assoc, List.drop_left]
  cases f with
  | none =>
    obtain ⟨e, he⟩ := Track.decode_unset t hmore
    exact ⟨e, congrArg (Except.map some) he⟩
  | some g =>
    obtain ⟨v, hv, hsize⟩ := h.written g rfl
    have hdata : [some g].flatMap dataOf = g.data := by simp [dataOf]
    obtain ⟨c, hc⟩ := Track.decode_continued hv hmore
    rw [hdata]
    rw [hsize] at hc
    exact ⟨_, congrArg (Except.map some) hc⟩

end Packs

lemma packs_of_build {b b' : ChunkBuilder} {chunk : Chunk} (hd : d.tracks ≠ []) (hb : Holds d b)
    (h : build b = .ok chunk b') : ∃ t gs f, Packs d t gs f ∧ chunk.payload = payload (gs ++ [f]) := by
  obtain ⟨timestamp, vs, rfl, hvs⟩ := hb
  obtain ⟨time, -, rfl, -, hoffsets⟩ := of_build_holding h
  obtain ⟨ts, t, hts⟩ := (List.eq_nil_or_concat d.tracks).resolve_left hd
  rw [List.concat_eq_append] at hts
  have hfields : d.tracks.map (fieldOf vs) = ts.map (fieldOf vs) ++ [fieldOf vs t] := by
    simp [hts]
  refine ⟨t, ts.map (fieldOf vs), fieldOf vs t, ⟨?_, ?_, ?_, ?_, ?_⟩, congrArg payload hfields⟩
  · simp [hts]
  · simp [TrackList.size, hts]
  · rwa [← hfields]
  · rw [← hfields, List.forall_mem_map]
    exact fun u hu => sizeOf_le hvs hu
  · exact fun g hg => encode_of_fieldOf hg

theorem damage_is_noticed {d : Descriptor} (hd : d.tracks ≠ []) (calls : List Call) {chunk : Chunk}
    {b : ChunkBuilder} (h : build (runAll calls (empty d)) = .ok chunk b) (timestamp : Int64) :
    (∀ part, part <+: chunk.payload → part ≠ chunk.payload → ∃ t ∈ d.tracks, ∃ c,
      Attempt.outcome (Chunk.value? t (.ofParts d timestamp part)) = .error (.corrupt c)) ∧
    ∀ more, more ≠ [] → ∃ t ∈ d.tracks, ∃ e,
      Attempt.outcome (Chunk.value? t (.ofParts d timestamp (chunk.payload ++ more))) = .error e := by
  obtain ⟨t, gs, f, hpacks, hpayload⟩ := packs_of_build hd ((holds_empty d).runAll calls) h
  rw [hpayload]
  refine ⟨fun part hpart hne => ⟨t, hpacks.mem, ?_⟩, fun more hmore => ⟨t, hpacks.mem, ?_⟩⟩
  · obtain ⟨rest, hrest⟩ := hpart
    have hcut : Bytes.IsCut part (payload (gs ++ [f])) := by
      refine ⟨rest, fun hnil => hne ?_, hrest.symm⟩
      rw [← hrest, hnil, List.append_nil]
    exact hpacks.cut timestamp hcut
  · exact hpacks.continued timestamp hmore

def sampleCalls : List Call :=
  [.build, .setTimestamp 7, .set 3 (.integers [300, -1]), .set 3 (.integers []), .set (-7) (.binary [255])]

def samplePayload : Bytes := [0, 1, 7, 0, 1, 2, 0, 0, 255, 172, 2, 211, 253, 255, 255, 15]

theorem damage_is_noticed_sample :
    ∃ chunk b, build (runAll sampleCalls (empty sampleDescriptor)) = .ok chunk b ∧
      chunk.payload = samplePayload ∧
      (∃ t ∈ sampleDescriptor.tracks, ∃ c, Attempt.outcome (Chunk.value? t
        (.ofParts sampleDescriptor 7 samplePayload.dropLast)) = .error (.corrupt c)) ∧
      ∃ t ∈ sampleDescriptor.tracks, ∃ e, Attempt.outcome (Chunk.value? t
        (.ofParts sampleDescriptor 7 (samplePayload ++ [0]))) = .error e := by
  have hd : sampleDescriptor.tracks ≠ [] := by decide
  have hpayload : (Attempt.outcome (build (runAll sampleCalls (empty sampleDescriptor)))).map
      Chunk.payload = .ok samplePayload := by decide +kernel
  cases hbuild : build (runAll sampleCalls (empty sampleDescriptor)) with
  | error e b =>
    rw [hbuild] at hpayload
    cases hpayload
  | ok chunk b =>
    rw [hbuild] at hpayload
    obtain hpayload : chunk.payload = samplePayload := Except.ok.inj hpayload
    obtain ⟨hcut, hmore⟩ := damage_is_noticed hd sampleCalls hbuild 7
    rw [hpayload] at hcut hmore
    exact ⟨chunk, b, rfl, hpayload, hcut _ ⟨[15], rfl⟩ (by decide), hmore [0] (by decide)⟩

end ChunkBuilder
end ChunkStore
