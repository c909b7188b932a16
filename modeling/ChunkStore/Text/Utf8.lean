import ChunkStore.Bytes

/-!
Text as bytes. A character takes one to four bytes; the first tells how many follow and from which
range the second comes, so that overlong forms, surrogates and values past the last code point have
no reading.
-/

namespace ChunkStore.Utf8

/-- Where a byte string stops being text: `length` bytes of no character from `index` on, or a
character that is cut short by the end. -/
inductive Flaw where
  | invalid (length index : Nat)
  | incomplete (index : Nat)
  deriving DecidableEq, Repr

def Flaw.message : Flaw → String
  | .invalid length index => s!"invalid utf-8 sequence of {length} bytes from index {index}"
  | .incomplete index => s!"incomplete utf-8 byte sequence from index {index}"

def encodeChar (c : Char) : Bytes :=
  let n := c.toNat
  if n < 0x80 then [UInt8.ofNat n]
  else if n < 0x800 then [UInt8.ofNat (0xC0 + n / 64), UInt8.ofNat (0x80 + n % 64)]
  else if n < 0x10000 then
    [UInt8.ofNat (0xE0 + n / 4096), UInt8.ofNat (0x80 + n / 64 % 64), UInt8.ofNat (0x80 + n % 64)]
  else
    [UInt8.ofNat (0xF0 + n / 262144), UInt8.ofNat (0x80 + n / 4096 % 64),
      UInt8.ofNat (0x80 + n / 64 % 64), UInt8.ofNat (0x80 + n % 64)]

def encode (cs : List Char) : Bytes := cs.flatMap encodeChar

/-- The number of bytes behind a first byte, and the least and greatest second byte. -/
def shape? (lead : Nat) : Option (Nat × Nat × Nat) :=
  if lead < 0xC2 then none
  else if lead < 0xE0 then some (1, 0x80, 0xBF)
  else if lead = 0xE0 then some (2, 0xA0, 0xBF)
  else if lead = 0xED then some (2, 0x80, 0x9F)
  else if lead < 0xF0 then some (2, 0x80, 0xBF)
  else if lead = 0xF0 then some (3, 0x90, 0xBF)
  else if lead < 0xF4 then some (3, 0x80, 0xBF)
  else if lead = 0xF4 then some (3, 0x80, 0x8F)
  else none

def isContinuation (b : UInt8) : Bool := 0x80 ≤ b.toNat && b.toNat ≤ 0xBF

/-- One character off the front. On failure the number of bytes that belong to no character, or
`none` where the end cuts one short. -/
def readChar? : Bytes → Except (Option Nat) (Char × Bytes)
  | [] => .error none
  | a :: rest =>
    if a.toNat < 0x80 then .ok (Char.ofNat a.toNat, rest)
    else
      match shape? a.toNat, rest with
      | none, _ => .error (some 1)
      | some _, [] => .error none
      | some (more, least, greatest), b :: rest =>
        if b.toNat < least || greatest < b.toNat then .error (some 1)
        else if more = 1 then .ok (Char.ofNat ((a.toNat - 0xC0) * 64 + (b.toNat - 0x80)), rest)
        else
          match rest with
          | [] => .error none
          | c :: rest =>
            if !isContinuation c then .error (some 2)
            else if more = 2 then
              .ok (Char.ofNat ((a.toNat - 0xE0) * 4096 + (b.toNat - 0x80) * 64 + (c.toNat - 0x80)),
                rest)
            else
              match rest with
              | [] => .error none
              | d :: rest =>
                if !isContinuation d then .error (some 3)
                else
                  .ok (Char.ofNat ((a.toNat - 0xF0) * 262144 + (b.toNat - 0x80) * 4096 +
                    (c.toNat - 0x80) * 64 + (d.toNat - 0x80)), rest)

theorem length_lt_of_readChar? {bs rest : Bytes} {c : Char} (h : readChar? bs = .ok (c, rest)) :
    rest.length < bs.length := by
  rw [readChar?.eq_def] at h
  repeat' split at h
  all_goals grind

def decodeFrom (index : Nat) (bs : Bytes) : Except Flaw (List Char) :=
  if bs.isEmpty then .ok []
  else
    match h : readChar? bs with
    | .error (some length) => .error (.invalid length index)
    | .error none => .error (.incomplete index)
    | .ok (c, rest) =>
      have := length_lt_of_readChar? h
      (decodeFrom (index + (bs.length - rest.length)) rest).map (c :: ·)
termination_by bs.length

def decode (bs : Bytes) : Except Flaw String := (decodeFrom 0 bs).map String.ofList

def ofString (s : String) : Bytes := encode s.toList

end ChunkStore.Utf8
