import ChunkStore.Chunk.Calls
import ChunkStore.Proofs.Chunk.Access
import ChunkStore.Proofs.Utf8

namespace ChunkStore

namespace Chunk

variable {c d : Chunk} {t : Track}

lemma value?_error {e : Error} (h : field? t.id c = .error e d) :
    Attempt.outcome (value? t c) = .error e := by
  have hread {α : Type} (read : Field → Except Error α) (f : α → FieldValue) :
      Attempt.outcome ((Option.map f <$> readField? t.id read) c) = .error e := by
    rw [Attempt.outcome_map, outcome_readField?_error h]
    rfl
  cases hk : t.encoding.kind <;> simp only [value?, hk] <;> exact hread _ _

lemma value?_field {data : Bytes} {size : Nat} (h : field? t.id c = .ok (some ⟨t, data, size⟩) d) :
    Attempt.outcome (value? t c) = (t.decode data size).map some := by
  have hread {α : Type} (read : Field → Except Error α) (f : α → FieldValue) :
      Attempt.outcome ((Option.map f <$> readField? t.id read) c) =
        (f <$> read ⟨t, data, size⟩).map some := by
    rw [Attempt.outcome_map, outcome_readField?_field h]
    cases read ⟨t, data, size⟩ <;> rfl
  cases hk : t.encoding.kind <;> simp only [value?, Track.decode, hk] <;> exact hread _ _

end Chunk

lemma ValueKind.kind_of_accepts {kind : ValueKind} {e : Encoding} (h : kind.accepts e = true) :
    e.kind = kind := by
  cases kind <;> cases e <;> simp_all [accepts, Encoding.kind, Encoding.isInteger]

namespace Track

variable {t : Track} {data : Bytes} {size : Nat} {v : FieldValue}

lemma accepts_of_checkKind {kind : ValueKind} (h : t.checkKind kind = .ok ()) :
    kind.accepts t.encoding = true := by
  by_contra hno
  rw [checkKind, if_neg hno] at h
  split at h <;> cases h

lemma length_of_checkSize (h : t.checkSize data size = .ok ()) : data.length = size := by
  rw [checkSize] at h
  split at h
  next hlen => exact hlen
  · cases h

lemma readsEmpty_eq_true (h : t.readsEmpty data size = true) :
    (t.encoding = .noData ∨ t.encoding = .centerFiltered) ∧ data = [] ∧ size = 0 := by
  simpa [readsEmpty] using h

section reading

variable (hempty : ¬ t.readsEmpty data size = true)

include hempty

lemma of_decodeBinary {bytes : Bytes} (h : t.decodeBinary data size = .ok bytes) :
    t.encoding = .binary ∧ data.length = size ∧ bytes = data := by
  rw [decodeBinary, if_neg hempty] at h
  cases hk : t.checkKind .binary with
  | error e => simp [hk, bind, Except.bind] at h
  | ok _ =>
    cases hs : t.checkSize data size with
    | error e => simp [hk, hs, bind, Except.bind] at h
    | ok _ =>
      simp only [hk, hs, bind, Except.bind] at h
      have he := accepts_of_checkKind hk
      exact ⟨by simpa [ValueKind.accepts] using he, length_of_checkSize hs, (Except.ok.inj h).symm⟩

lemma of_decodeText {s : String} (h : t.decodeText data size = .ok s) :
    t.encoding = .text ∧ data.length = size ∧ Utf8.ofString s = data := by
  rw [decodeText, if_neg hempty] at h
  cases hk : t.checkKind .text with
  | error e => simp [hk, bind, Except.bind] at h
  | ok _ =>
    cases hs : t.checkSize data size with
    | error e => simp [hk, hs, bind, Except.bind] at h
    | ok _ =>
      simp only [hk, hs, bind, Except.bind] at h
      split at h
      next hs' =>
        obtain rfl := Except.ok.inj h
        have he := accepts_of_checkKind hk
        exact ⟨by simpa [ValueKind.accepts] using he, length_of_checkSize hs,
          Utf8.ofString_of_decode hs'⟩
      · cases h

lemma of_decodeIntegers {vs : List Int32} (h : t.decodeIntegers data size = .ok vs) :
    t.encoding.kind = .integers ∧ ∃ codec, Codec.ofEncoding t.encoding = .ok codec ∧
      codec.decompress data size [] = (vs, .ok data.length) := by
  rw [decodeIntegers, if_neg hempty] at h
  cases hk : t.checkKind .integers with
  | error e => simp [hk, bind, Except.bind] at h
  | ok _ =>
    cases hc : Codec.ofEncoding t.encoding with
    | error e => simp [hk, hc, bind, Except.bind] at h
    | ok codec =>
      simp only [hk, hc, bind, Except.bind] at h
      split at h
      · cases h
      next ws n hread =>
        split at h
        next hn =>
          obtain rfl := Except.ok.inj h
          exact ⟨ValueKind.kind_of_accepts (accepts_of_checkKind hk), codec, rfl, hn ▸ hread⟩
        · cases h

end reading

lemma decode_eq_ok_iff :
    t.decode data size = .ok v ↔ v.kind = t.encoding.kind ∧ t.Decodes data size v := by
  have hmap {α : Type} (f : α → FieldValue) (r : Except Error α) :
      f <$> r = .ok v ↔ ∃ a, r = .ok a ∧ f a = v := by
    cases r <;> simp [Functor.map, Except.map]
  rw [decode]
  cases hk : t.encoding.kind <;> cases v <;> simp [hmap, Decodes, FieldValue.kind]

lemma decodes_cases (h : t.Decodes data size v) :
    (data = [] ∧ size = 0) ∨ t.decode data size = .ok v := by
  by_cases hempty : t.readsEmpty data size = true
  · exact .inl (readsEmpty_eq_true hempty).2
  · refine .inr (decode_eq_ok_iff.2 ⟨?_, h⟩)
    cases v with
    | binary bytes => rw [(of_decodeBinary hempty h).1]; rfl
    | text s => rw [(of_decodeText hempty h).1]; rfl
    | integers vs => exact (of_decodeIntegers hempty h).1.symm

lemma size_of_decodesEmpty (hempty : t.readsEmpty data size = true) (h : t.Decodes data size v) :
    v.size = 0 := by
  obtain ⟨-, rfl, -⟩ := readsEmpty_eq_true hempty
  cases v with
  | binary bytes =>
    rw [Decodes, decodeBinary, if_pos hempty] at h
    rw [← Except.ok.inj h]
    rfl
  | text s =>
    rw [Decodes, decodeText, if_pos hempty] at h
    rw [← Except.ok.inj h]
    rfl
  | integers vs =>
    rw [Decodes, decodeIntegers, if_pos hempty] at h
    rw [← Except.ok.inj h]
    rfl

lemma encode_of_decodes (hempty : ¬ t.readsEmpty data size = true) (h : t.Decodes data size v) :
    v.size = size ∧ (size = 0 → data = []) ∧
      ∃ written, t.encode v = .ok written ∧ written.SameOrShorter data := by
  cases v with
  | binary bytes =>
    obtain ⟨he, hlen, rfl⟩ := of_decodeBinary hempty h
    exact ⟨hlen, fun h0 => List.length_eq_zero_iff.1 (hlen.trans h0), _, encode_binary he _, .refl _⟩
  | text s =>
    obtain ⟨he, hlen, rfl⟩ := of_decodeText hempty h
    exact ⟨hlen, fun h0 => List.length_eq_zero_iff.1 (hlen.trans h0), _, encode_text he s, .refl _⟩
  | integers vs =>
    obtain ⟨-, codec, hc, hread⟩ := of_decodeIntegers hempty h
    obtain ⟨codes, rest, hlen, hcodes, hdata, hn, hvs⟩ := Codec.decompress_eq_ok_iff.1 hread
    obtain rfl : rest = [] := by
      rw [hdata, List.length_append] at hn
      exact List.length_eq_zero_iff.1 (by omega)
    rw [List.append_nil] at hdata
    rw [List.nil_append] at hvs
    refine ⟨?_, fun h0 => ?_, _, encode_integers hc vs, ?_⟩
    · rw [← hvs, FieldValue.size, Codec.length_restore, List.length_map, hlen]
    · rw [hdata, List.length_eq_zero_iff.1 (hlen.trans h0)]
      rfl
    · rw [← hvs, hdata, Codec.compress, Codec.prepare_restore]
      exact Varbyte.encodeAll_values hcodes

theorem of_decodes (h : t.Decodes data size v) : v.size = size ∧ (size = 0 → data = []) ∧
    (size ≠ 0 → ∃ written, t.encode v = .ok written ∧ written.SameOrShorter data) := by
  by_cases hempty : t.readsEmpty data size = true
  · obtain ⟨-, hdata, hsize⟩ := readsEmpty_eq_true hempty
    exact ⟨by rw [size_of_decodesEmpty hempty h, hsize], fun _ => hdata, fun hne => absurd hsize hne⟩
  · obtain ⟨hsize, hdata, hwritten⟩ := encode_of_decodes hempty h
    exact ⟨hsize, hdata, fun _ => hwritten⟩

end Track
end ChunkStore
