/-!
Whole numbers in decimal: an optional sign, then digits, within given bounds. Reading goes from left
to right and stops at the first character that is no digit or that makes the number too large.
-/

namespace ChunkStore.Decimal

inductive Flaw where
  | empty
  | invalidDigit
  | tooLarge
  | tooSmall
  deriving DecidableEq, Repr

def Flaw.message : Flaw → String
  | .empty => "cannot parse integer from empty string"
  | .invalidDigit => "invalid digit found in string"
  | .tooLarge => "number too large to fit in target type"
  | .tooSmall => "number too small to fit in target type"

def readDigits (limit : Nat) (beyond : Flaw) (value : Nat) : List Char → Except Flaw Nat
  | [] => .ok value
  | c :: cs =>
    if c.isDigit then
      let value := 10 * value + (c.toNat - '0'.toNat)
      if limit < value then .error beyond else readDigits limit beyond value cs
    else .error .invalidDigit

def read (below above : Nat) : List Char → Except Flaw Int
  | [] => .error .empty
  | ['+'] | ['-'] => .error .invalidDigit
  | '-' :: cs => (readDigits below .tooSmall 0 cs).map fun n => -n
  | '+' :: cs | cs => (readDigits above .tooLarge 0 cs).map fun n => n

def readInt64 (s : String) : Except Flaw Int64 :=
  (read 9223372036854775808 9223372036854775807 s.toList).map Int64.ofInt

def readInt32 (s : String) : Except Flaw Int32 :=
  (read 2147483648 2147483647 s.toList).map Int32.ofInt

def ofNat (n : Nat) : String := String.ofList (Nat.toDigits 10 n)

def ofInt : Int → String
  | .ofNat n => ofNat n
  | .negSucc n => String.ofList ('-' :: Nat.toDigits 10 (n + 1))

end ChunkStore.Decimal
