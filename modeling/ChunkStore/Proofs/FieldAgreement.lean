import ChunkStore.Proofs.Buffers
import ChunkStore.Proofs.Chunk.Values

/-!
The three decoders and the encoder of a track agree: a value that is read is written with no more
bytes, which read the same, and what is written behind other bytes reads as what was to be written.
-/

namespace ChunkStore

namespace Codec

lemma foldl_encode (vs : List Int32) : ∀ out : Bytes,
    vs.foldl (fun out v => out ++ Varbyte.encode v) out = out ++ Varbyte.encodeAll vs := by
  induction vs with
  | nil => simp
  | cons v vs ih => simp [ih]

lemma foldl_pushDifference (vs : List Int32) : ∀ (out : Bytes) (previous : Int32),
    (vs.foldl pushDifference (out, some previous)).1 =
      out ++ Varbyte.encodeAll (differences previous vs) := by
  induction vs with
  | nil => simp [differences]
  | cons v vs ih => simp [pushDifference, differences, ih]

lemma compressInto_eq (codec : Codec) (vs : List Int32) (out : Bytes) :
    codec.compressInto vs out = out ++ codec.compress vs := by
  cases codec with
  | plain => exact foldl_encode vs out
  | delta =>
    cases vs with
    | nil => simp [compressInto, compress, prepare, differences]
    | cons v vs =>
      simp [compressInto, compress, prepare, differences, pushDifference, foldl_pushDifference]

end Codec

namespace Track

variable {t : Track} {data : Bytes} {size : Nat} {v : FieldValue}

lemma write_eq (t : Track) (v : FieldValue) (out : Bytes) : t.write v out =
    match t.append v out with
    | .ok written => .ok () written
    | .error e => .error e out := by
  unfold write append encode
  cases t.checkKind v.kind with
  | error e => rfl
  | ok _ =>
    cases v with
    | binary bytes => rfl
    | text s => rfl
    | integers vs =>
      cases Codec.ofEncoding t.encoding with
      | error e => rfl
      | ok codec => exact congrArg (EStateM.Result.ok ()) (codec.compressInto_eq vs out)

lemma write_of_encode (h : t.encode v = .ok data) (out : Bytes) :
    t.write v out = .ok () (out ++ data) := by
  rw [write_eq, append, h]
  rfl

lemma write_of_error {e : Error} (h : t.encode v = .error e) (out : Bytes) :
    t.write v out = .error e out := by
  rw [write_eq, append, h]
  rfl

lemma accepts_of_takes (h : t.Takes v) : v.kind.accepts t.encoding = true := by
  cases v with
  | binary bytes => simpa [FieldValue.kind, ValueKind.accepts, Takes] using h
  | text s => simpa [FieldValue.kind, ValueKind.accepts, Takes] using h
  | integers vs =>
    rcases h with h | h <;> simp [FieldValue.kind, ValueKind.accepts, Encoding.isInteger, h]

lemma written_eq (hempty : ¬ t.readsEmpty data size = true) (h : t.Decodes data size v)
    (hkind : v.kind ≠ .integers) : t.encode v = .ok data := by
  cases v with
  | binary bytes =>
    obtain ⟨he, -, rfl⟩ := of_decodeBinary hempty h
    exact encode_binary he bytes
  | text s =>
    obtain ⟨he, -, rfl⟩ := of_decodeText hempty h
    exact encode_text he s
  | integers vs => exact absurd rfl hkind

lemma decodes_iff_of_dataless (ht : t.encoding = .noData ∨ t.encoding = .centerFiltered) :
    t.Decodes data size v ↔
      data = [] ∧ size = 0 ∧ (v = .binary [] ∨ v = .text "" ∨ v = .integers []) := by
  constructor
  · intro h
    by_cases hempty : t.readsEmpty data size = true
    · obtain ⟨-, rfl, rfl⟩ := readsEmpty_eq_true hempty
      refine ⟨rfl, rfl, ?_⟩
      cases v with
      | binary bytes => simpa [Decodes, decodeBinary, hempty, eq_comm] using h
      | text s => simpa [Decodes, decodeText, hempty, eq_comm] using h
      | integers vs => simpa [Decodes, decodeIntegers, hempty, eq_comm] using h
    · -- what is read of bytes could be written, and the track takes no value
      obtain ⟨written, hwritten, -⟩ := (encode_of_decodes hempty h).2.2
      have htakes := encode_ok_iff.1 ⟨written, hwritten⟩
      cases v <;> rcases ht with ht | ht <;> simp [Takes, ht] at htakes
  · rintro ⟨rfl, rfl, hv⟩
    have hnil := t.decodesEmpty_nil
    rw [DecodesEmpty] at hnil
    rcases ht with ht | ht <;> rw [ht] at hnil <;> rcases hv with rfl | rfl | rfl
    exacts [hnil.1, hnil.2.1, hnil.2.2, hnil.1, hnil.2.1, hnil.2.2]

theorem fields_agree (t : Track) :
    (t.encoding ≠ .noData → t.encoding ≠ .centerFiltered →
      ∀ data size v, t.Decodes data size v →
        v.kind.accepts t.encoding = true ∧ v.size = size ∧
          ∃ written, (∀ out, t.write v out = .ok () (out ++ written)) ∧
            written.length ≤ data.length ∧ (v.kind ≠ .integers → written = data) ∧
              t.Decodes written size v) ∧
      (t.encoding = .noData ∨ t.encoding = .centerFiltered →
        ∀ data size v, t.Decodes data size v ↔
          data = [] ∧ size = 0 ∧ (v = .binary [] ∨ v = .text "" ∨ v = .integers [])) ∧
      ∀ v out, (¬ t.Takes v ∧ ∃ e, t.write v out = .error e out) ∨
        (t.Takes v ∧ ∃ written, t.write v out = .ok () (out ++ written) ∧
          t.Decodes written v.size v) := by
  refine ⟨fun h₁ h₂ data size v h => ?_, fun ht data size v => decodes_iff_of_dataless ht,
    fun v out => ?_⟩
  · have hempty : ¬ t.readsEmpty data size = true := by
      rw [readsEmpty_eq_false h₁ h₂]
      exact Bool.false_ne_true
    obtain ⟨rfl, -, written, hwritten, hshort⟩ := encode_of_decodes hempty h
    refine ⟨accepts_of_takes (encode_ok_iff.1 ⟨written, hwritten⟩), rfl, written,
      write_of_encode hwritten, hshort.length_le, fun hkind => ?_, decodes_encode hwritten⟩
    exact Except.ok.inj (hwritten.symm.trans (written_eq hempty h hkind))
  · cases h : t.encode v with
    | ok written =>
      exact .inr ⟨encode_ok_iff.1 ⟨written, h⟩, written, write_of_encode h out, decodes_encode h⟩
    | error e =>
      refine .inl ⟨fun htakes => ?_, e, write_of_error h out⟩
      obtain ⟨written, hwritten⟩ := encode_ok_iff.2 htakes
      rw [h] at hwritten
      cases hwritten

theorem fields_agree_sample :
    Decodes ⟨1, .deltaVarbyte⟩ [0x85, 0x00, 0x7f] 2 (.integers [5, 132]) ∧
      ∃ written, (∀ out, write ⟨1, .deltaVarbyte⟩ (.integers [5, 132]) out = .ok () (out ++ written)) ∧
        written.length ≤ 3 ∧ Decodes ⟨1, .deltaVarbyte⟩ written 2 (.integers [5, 132]) := by
  have h : Decodes ⟨1, .deltaVarbyte⟩ [0x85, 0x00, 0x7f] 2 (.integers [5, 132]) := by rfl
  obtain ⟨-, -, written, hwritten, hshort, -, hread⟩ :=
    (fields_agree ⟨1, .deltaVarbyte⟩).1 (by decide) (by decide) _ _ _ h
  exact ⟨h, written, hwritten, hshort, hread⟩

end Track
end ChunkStore
