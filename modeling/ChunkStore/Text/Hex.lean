import ChunkStore.Bytes

/-!
Bytes written as pairs of hexadecimal digits, the high half first. Digits are written in lower case
and read in either.
-/

namespace ChunkStore

abbrev Nibble := Fin 16

namespace Nibble

def ofNat (n : Nat) : Nibble := ⟨n % 16, Nat.mod_lt n (by decide)⟩

def toChar (n : Nibble) : Char := Char.ofNat (if n.val < 10 then 48 + n.val else 87 + n.val)

def ofChar? (c : Char) : Option Nibble :=
  if '0' ≤ c ∧ c ≤ '9' then some (ofNat (c.toNat - 48))
  else if 'a' ≤ c ∧ c ≤ 'f' then some (ofNat (c.toNat - 87))
  else if 'A' ≤ c ∧ c ≤ 'F' then some (ofNat (c.toNat - 55))
  else none

@[simp] theorem ofChar?_toChar : ∀ n : Nibble, ofChar? n.toChar = some n := by decide

theorem toChar_injective {m n : Nibble} (h : m.toChar = n.toChar) : m = n := by
  simpa using congrArg ofChar? h

theorem toLower_toChar : ∀ n : Nibble, n.toChar.toLower = n.toChar := by decide

end Nibble

namespace Hex

def encodeByte (b : UInt8) : List Char :=
  [(Nibble.ofNat (b.toNat / 16)).toChar, (Nibble.ofNat b.toNat).toChar]

def encode (bs : Bytes) : List Char := bs.flatMap encodeByte

def text (bs : Bytes) : String := String.ofList (encode bs)

def decode? : List Char → Option Bytes
  | [] => some []
  | [_] => none
  | c :: d :: rest => do
    let high ← Nibble.ofChar? c
    let low ← Nibble.ofChar? d
    let bytes ← decode? rest
    return UInt8.ofNat (16 * high.val + low.val) :: bytes

theorem length_encode (bs : Bytes) : (encode bs).length = 2 * bs.length := by
  induction bs with
  | nil => rfl
  | cons b bs ih =>
    change (encodeByte b ++ encode bs).length = _
    simp [encodeByte, ih]
    omega

theorem toLower_of_mem_encode {bs : Bytes} {c : Char} (h : c ∈ encode bs) : c.toLower = c := by
  obtain ⟨b, -, hb⟩ := List.mem_flatMap.1 h
  simp only [encodeByte, List.mem_cons, List.not_mem_nil, or_false] at hb
  obtain rfl | rfl := hb <;> exact Nibble.toLower_toChar _

theorem decode?_encode (bs : Bytes) : decode? (encode bs) = some bs := by
  induction bs with
  | nil => rfl
  | cons b bs ih =>
    have hb := b.toNat_lt
    have hv : UInt8.ofNat (16 * (b.toNat / 16 % 16) + b.toNat % 16) = b := by
      apply UInt8.toNat.inj
      rw [UInt8.toNat_ofNat']
      omega
    change decode? (encodeByte b ++ encode bs) = _
    simp only [encodeByte, List.cons_append, List.nil_append, decode?, Nibble.ofChar?_toChar, ih,
      Option.bind_eq_bind, Option.bind_some, Nibble.ofNat, hv]
    rfl

theorem encode_injective {bs cs : Bytes} (h : encode bs = encode cs) : bs = cs := by
  simpa [decode?_encode] using congrArg decode? h

end Hex
end ChunkStore
