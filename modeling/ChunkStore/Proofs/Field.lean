import ChunkStore.Field
import ChunkStore.Proofs.Codec
import ChunkStore.Proofs.Utf8

namespace ChunkStore

def Error.isUnreadable : Error → Bool
  | corrupt _ | encodingMismatch _ _ _ | unsupportedEncoding _ => true
  | _ => false

namespace Track

def Takes (t : Track) : FieldValue → Prop
  | .binary _ => t.encoding = .binary
  | .text _ => t.encoding = .text
  | .integers _ => t.encoding = .varbyte ∨ t.encoding = .deltaVarbyte

def Decodes (t : Track) (data : Bytes) (size : Nat) : FieldValue → Prop
  | .binary bytes => t.decodeBinary data size = .ok bytes
  | .text s => t.decodeText data size = .ok s
  | .integers vs => t.decodeIntegers data size = .ok vs

lemma encode_binary {t : Track} (h : t.encoding = .binary) (bytes : Bytes) :
    t.encode (.binary bytes) = .ok bytes := by
  simp [encode, checkKind, FieldValue.kind, ValueKind.accepts, h, bind, Except.bind]

lemma encode_text {t : Track} (h : t.encoding = .text) (s : String) :
    t.encode (.text s) = .ok (Utf8.ofString s) := by
  simp [encode, checkKind, FieldValue.kind, ValueKind.accepts, h, bind, Except.bind]

lemma encode_integers {t : Track} {codec : Codec} (h : Codec.ofEncoding t.encoding = .ok codec)
    (vs : List Int32) : t.encode (.integers vs) = .ok (codec.compress vs) := by
  have hkind : t.checkKind .integers = .ok () := by
    cases he : t.encoding <;> simp_all [checkKind, Codec.ofEncoding, ValueKind.accepts, Encoding.isInteger]
  simp [encode, FieldValue.kind, hkind, h, bind, Except.bind, pure, Except.pure]

lemma codec_of_takes {t : Track} {vs : List Int32} (h : t.Takes (.integers vs)) :
    ∃ codec, Codec.ofEncoding t.encoding = .ok codec := by
  rcases h with h | h
  · exact ⟨.plain, by rw [h]; rfl⟩
  · exact ⟨.delta, by rw [h]; rfl⟩

lemma encode_ok_iff {t : Track} {v : FieldValue} : (∃ data, t.encode v = .ok data) ↔ t.Takes v := by
  constructor
  · rintro ⟨data, h⟩
    cases v <;> cases he : t.encoding <;>
      simp_all [encode, checkKind, FieldValue.kind, ValueKind.accepts, Encoding.isInteger, Takes,
        Codec.ofEncoding, bind, Except.bind]
  · intro h
    cases v with
    | binary bytes => exact ⟨_, encode_binary h bytes⟩
    | text s => exact ⟨_, encode_text h s⟩
    | integers vs =>
      obtain ⟨codec, hc⟩ := codec_of_takes h
      exact ⟨_, encode_integers hc vs⟩

lemma readsEmpty_eq_false {t : Track} (h₁ : t.encoding ≠ .noData) (h₂ : t.encoding ≠ .centerFiltered)
    (data : Bytes) (size : Nat) : t.readsEmpty data size = false := by
  simp [readsEmpty, h₁, h₂]

lemma decodes_encode {t : Track} {v : FieldValue} {data : Bytes} (h : t.encode v = .ok data) :
    t.Decodes data v.size v := by
  have ht : t.Takes v := encode_ok_iff.1 ⟨data, h⟩
  cases v with
  | binary bytes =>
    have he : t.encoding = .binary := ht
    rw [encode_binary he, Except.ok.injEq] at h
    simp [Decodes, decodeBinary, readsEmpty_eq_false, checkKind, checkSize, ValueKind.accepts, he, h,
      FieldValue.size, bind, Except.bind]
  | text s =>
    have he : t.encoding = .text := ht
    rw [encode_text he, Except.ok.injEq] at h
    simp [Decodes, decodeText, readsEmpty_eq_false, checkKind, checkSize, ValueKind.accepts, he, ← h,
      FieldValue.size, Utf8.decode_ofString, bind, Except.bind]
  | integers vs =>
    obtain ⟨codec, hc⟩ := codec_of_takes ht
    rw [encode_integers hc, Except.ok.injEq] at h
    have hkind : t.checkKind .integers = .ok () := by
      rcases ht with he | he <;> simp [checkKind, he, ValueKind.accepts, Encoding.isInteger]
    have hempty : t.readsEmpty data vs.length = false := by
      rcases ht with he | he <;> exact readsEmpty_eq_false (by simp [he]) (by simp [he]) data _
    have hread := codec.decompress_compress_append vs [] []
    rw [List.append_nil, h] at hread
    simp [Decodes, decodeIntegers, FieldValue.size, hempty, hkind, hc, hread, bind, Except.bind]

/-- How a track without a value reads: by the getter of its kind, or by all three if its encoding
never has data. -/
def DecodesEmpty (t : Track) (data : Bytes) (size : Nat) : Prop :=
  match t.encoding with
  | .binary => t.Decodes data size (.binary [])
  | .text => t.Decodes data size (.text "")
  | .varbyte | .deltaVarbyte => t.Decodes data size (.integers [])
  | .noData | .centerFiltered =>
    t.Decodes data size (.binary []) ∧ t.Decodes data size (.text "") ∧ t.Decodes data size (.integers [])

lemma decodesEmpty_nil (t : Track) : t.DecodesEmpty [] 0 := by
  rw [DecodesEmpty]
  cases he : t.encoding with
  | binary => exact decodes_encode (encode_binary he [])
  | text => exact decodes_encode (encode_text he "")
  | varbyte =>
    have hc : Codec.ofEncoding t.encoding = .ok .plain := by rw [he]; rfl
    exact decodes_encode (encode_integers hc [])
  | deltaVarbyte =>
    have hc : Codec.ofEncoding t.encoding = .ok .delta := by rw [he]; rfl
    exact decodes_encode (encode_integers hc [])
  | noData | centerFiltered =>
    simp [Decodes, decodeBinary, decodeText, decodeIntegers, readsEmpty, he]

lemma unreadable_of_checkKind {t : Track} {kind : ValueKind} {e : Error}
    (h : t.checkKind kind = .error e) : e.isUnreadable = true := by
  rw [checkKind] at h
  split at h
  · cases h
  · split at h
    · rw [← Except.error.inj h]
      rfl
    · rw [← Except.error.inj h]
      rfl

lemma unreadable_of_checkSize {t : Track} {data : Bytes} {size : Nat} {e : Error}
    (h : t.checkSize data size = .error e) : e.isUnreadable = true := by
  rw [checkSize] at h
  split at h
  · cases h
  · rw [← Except.error.inj h]
    rfl

lemma unreadable_of_decodeIntegers {t : Track} {data : Bytes} {size : Nat} {e : Error}
    (h : t.decodeIntegers data size = .error e) : e.isUnreadable = true := by
  rw [decodeIntegers] at h
  split at h
  · cases h
  · cases hk : t.checkKind .integers with
    | error e' =>
      obtain rfl : e' = e := by simpa [hk, bind, Except.bind] using h
      exact unreadable_of_checkKind hk
    | ok _ =>
      cases hc : Codec.ofEncoding t.encoding with
      | error e' =>
        obtain rfl : e' = e := by simpa [hk, hc, bind, Except.bind] using h
        cases he : t.encoding <;> rw [he] at hc <;> cases hc <;> rfl
      | ok codec =>
        simp only [hk, hc, bind, Except.bind] at h
        split at h
        next hd =>
          obtain ⟨c, hc⟩ := Codec.corrupt_of_decompress hd
          obtain rfl := Except.error.inj h
          rw [hc]
          rfl
        · split at h
          · cases h
          · rw [← Except.error.inj h]
            rfl

lemma unreadable_of_decodeText {t : Track} {data : Bytes} {size : Nat} {e : Error}
    (h : t.decodeText data size = .error e) : e.isUnreadable = true := by
  rw [decodeText] at h
  split at h
  · cases h
  · cases hk : t.checkKind .text with
    | error e' =>
      obtain rfl : e' = e := by simpa [hk, bind, Except.bind] using h
      exact unreadable_of_checkKind hk
    | ok _ =>
      cases hs : t.checkSize data size with
      | error e' =>
        obtain rfl : e' = e := by simpa [hk, hs, bind, Except.bind] using h
        exact unreadable_of_checkSize hs
      | ok _ =>
        simp only [hk, hs, bind, Except.bind] at h
        split at h
        · cases h
        · rw [← Except.error.inj h]
          rfl

lemma unreadable_of_decodeBinary {t : Track} {data : Bytes} {size : Nat} {e : Error}
    (h : t.decodeBinary data size = .error e) : e.isUnreadable = true := by
  rw [decodeBinary] at h
  split at h
  · cases h
  · cases hk : t.checkKind .binary with
    | error e' =>
      obtain rfl : e' = e := by simpa [hk, bind, Except.bind] using h
      exact unreadable_of_checkKind hk
    | ok _ =>
      cases hs : t.checkSize data size with
      | error e' =>
        obtain rfl : e' = e := by simpa [hk, hs, bind, Except.bind] using h
        exact unreadable_of_checkSize hs
      | ok _ => simp [hk, hs, bind, Except.bind] at h

end Track
end ChunkStore
