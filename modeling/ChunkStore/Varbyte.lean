import ChunkStore.Bytes

/-!
Codes of one to five bytes for 32-bit integers: seven bits a byte, low bits first, the high bit set
on every byte but the last. Codes follow each other without a separator or a count.
-/

namespace ChunkStore.Varbyte

inductive Flaw where
  | truncated
  | overflow
  | tooLong
  deriving DecidableEq, Repr

def encodeNat (n : Nat) : Bytes :=
  if n < 128 then [UInt8.ofNat n] else UInt8.ofNat (128 + n % 128) :: encodeNat (n / 128)
termination_by n

def encode (v : Int32) : Bytes := encodeNat v.toUInt32.toNat

def encodeAll (vs : List Int32) : Bytes := vs.flatMap encode

/-- The value of the code in front, of at most `allowed` bytes, and what follows it. The fifth byte
of a code has four bits left. -/
def readNat (allowed : Nat) (bs : Bytes) : Except Flaw (Nat × Bytes) :=
  match allowed, bs with
  | 0, _ => .error .tooLong
  | _ + 1, [] => .error .truncated
  | more + 1, b :: rest =>
    let low := b.toNat % 128
    if more = 0 ∧ 15 < low then .error .overflow
    else if b.toNat < 128 then .ok (low, rest)
    else
      match readNat more rest with
      | .ok (high, rest) => .ok (low + 128 * high, rest)
      | .error flaw => .error flaw

def read (bs : Bytes) : Except Flaw (Int32 × Bytes) :=
  match readNat 5 bs with
  | .ok (n, rest) => .ok ((UInt32.ofNat n).toInt32, rest)
  | .error flaw => .error flaw

/-- Up to `count` codes off the front: the values before the first flaw, and what follows the last
code or the flaw. -/
def readAll (count : Nat) (bs : Bytes) : List Int32 × Except Flaw Bytes :=
  match count with
  | 0 => ([], .ok bs)
  | count + 1 =>
    match read bs with
    | .error flaw => ([], .error flaw)
    | .ok (v, rest) =>
      match readAll count rest with
      | (vs, outcome) => (v :: vs, outcome)

theorem length_of_readAll {count : Nat} {bs rest : Bytes} {vs : List Int32}
    (h : readAll count bs = (vs, .ok rest)) : vs.length = count := by
  induction count generalizing bs vs with
  | zero => simp_all [readAll]
  | succ count ih =>
    rw [readAll] at h
    split at h
    · simp at h
    next v rest' _ =>
      obtain ⟨rfl, hr⟩ := Prod.mk.inj h
      simpa using ih (Prod.ext rfl hr)

end ChunkStore.Varbyte
