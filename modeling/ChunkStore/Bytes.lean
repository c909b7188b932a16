namespace ChunkStore

abbrev Bytes := List UInt8

namespace Bytes

instance isLinearOrder : Std.IsLinearOrder Bytes := List.instIsLinearOrder

instance lawfulOrderLT : Std.LawfulOrderLT Bytes := List.instLawfulOrderLTOfAsymmLt

def slice (bs : Bytes) (start stop : Nat) : Bytes := (bs.drop start).take (stop - start)

def ofWord (n : Nat) : Bytes :=
  [UInt8.ofNat n, UInt8.ofNat (n / 256), UInt8.ofNat (n / 65536), UInt8.ofNat (n / 16777216)]

def word? : Bytes → Option (Nat × Bytes)
  | a :: b :: c :: d :: rest =>
    some (a.toNat + 256 * b.toNat + 65536 * c.toNat + 16777216 * d.toNat, rest)
  | _ => none

@[simp] theorem length_ofWord (n : Nat) : (ofWord n).length = 4 := rfl

theorem word?_ofWord_append {n : Nat} (h : n < 4294967296) (rest : Bytes) :
    word? (ofWord n ++ rest) = some (n, rest) := by
  simp only [ofWord, List.cons_append, List.nil_append, word?, UInt8.toNat_ofNat', Nat.reducePow]
  congr 2
  omega

theorem eq_ofWord_of_word? {bs rest : Bytes} {n : Nat} (h : word? bs = some (n, rest)) :
    n < 4294967296 ∧ bs = ofWord n ++ rest := by
  match bs, h with
  | a :: b :: c :: d :: r, h =>
    obtain ⟨rfl, rfl⟩ : a.toNat + 256 * b.toNat + 65536 * c.toNat + 16777216 * d.toNat = n ∧
        r = rest := by simpa [word?] using h
    have ha := a.toNat_lt
    have hb := b.toNat_lt
    have hc := c.toNat_lt
    have hd := d.toNat_lt
    refine ⟨by omega, ?_⟩
    simp only [ofWord, List.cons_append, List.nil_append, List.cons.injEq, and_true]
    refine ⟨?_, ?_, ?_, ?_⟩ <;> (apply UInt8.toNat.inj; simp only [UInt8.toNat_ofNat']; omega)

end Bytes
end ChunkStore
