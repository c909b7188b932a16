import ChunkStore.Toml.Text

/-!
Numbers: whole ones in four bases, and decimal fractions. An underscore may stand between two
digits. Whole numbers have 64 bits; a positive fraction must not be beyond the floating-point
numbers of 64 bits.
-/

namespace ChunkStore.Toml

def isDigitOf (base : Nat) (c : Char) : Bool := (Nibble.ofChar? c).any (·.val < base)

def ofDigits (base : Nat) (ds : List Char) : Nat :=
  ds.foldl (fun n c => base * n + ((Nibble.ofChar? c).map Fin.val).getD 0) 0

def moreDigits (base : Nat) : List Char → List Char × List Char
  | '_' :: c :: rest =>
    if isDigitOf base c then
      let (ds, rest) := moreDigits base rest
      (c :: ds, rest)
    else ([], '_' :: c :: rest)
  | c :: rest =>
    if isDigitOf base c then
      let (ds, rest) := moreDigits base rest
      (c :: ds, rest)
    else ([], c :: rest)
  | [] => ([], [])

def digits (base : Nat) : Reader (List Char) := do
  let first ← satisfying (isDigitOf base)
  fun cs =>
    let (ds, rest) := moreDigits base cs
    some (first :: ds, rest)

def minus : Reader Bool := do
  if ← took (· = '-') then return true
  discard (took (· = '+'))
  return false

def wholeDigits : Reader (List Char) := do
  if ← took (· = '0') then return ['0'] else digits 10

def signed (negative : Bool) (n : Nat) : Int := if negative then -n else n

def decimalInteger : Reader Int := do
  let negative ← minus
  return signed negative (ofDigits 10 (← wholeDigits))

def integerOf (base : Nat) : Reader Int := do return ofDigits base (← digits base)

def integer : Reader Int := do
  let n ← fun cs => match cs with
    | '0' :: 'x' :: rest => integerOf 16 rest
    | '0' :: 'o' :: rest => integerOf 8 rest
    | '0' :: 'b' :: rest => integerOf 2 rest
    | cs => decimalInteger cs
  if -9223372036854775808 ≤ n ∧ n < 9223372036854775808 then return n else failure

def overflow : Nat := Nat.pow 2 1024 - Nat.pow 2 970

/-- Whether digits, taken times a power of ten, are beyond the floating-point numbers. Where the
number of digits does not tell, this is worked out. -/
def isBeyond (ds : List Char) (exponent : Int) : Bool :=
  let ds := ds.dropWhile (· = '0')
  let magnitude := ds.length + exponent
  if ds = [] ∨ magnitude < 309 then false
  else if 309 < magnitude then true
  else
    match exponent with
    | .ofNat k => overflow ≤ ofDigits 10 ds * Nat.pow 10 k
    | .negSucc k => overflow * Nat.pow 10 (k + 1) ≤ ofDigits 10 ds

def exponent : Reader Int := do
  let negative ← minus
  return signed negative (ofDigits 10 (← digits 10))

def decimal : Reader Unit := do
  let negative ← minus
  let whole ← wholeDigits
  let fraction ← if ← took (· = '.') then some <$> digits 10 else pure none
  let power ← if ← took (fun c => c = 'e' || c = 'E') then some <$> exponent else pure none
  let ds := fraction.getD []
  if fraction.isNone ∧ power.isNone then failure
  if !negative && isBeyond (whole ++ ds) (power.getD 0 - ds.length) then failure

def special : Reader Unit := do
  discard minus
  word "inf" <|> word "nan"

end ChunkStore.Toml
