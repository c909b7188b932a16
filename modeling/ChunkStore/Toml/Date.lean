import ChunkStore.Toml.Number

/-!
Dates and times of day, alone or together, with an offset from universal time only where both stand.
-/

namespace ChunkStore.Toml

def fixedNumber (count : Nat) : Reader Nat := fun cs =>
  let ds := cs.take count
  if ds.length = count ∧ ds.all Char.isDigit then some (ofDigits 10 ds, cs.drop count) else none

def twoDigits (least greatest : Nat) : Reader Unit := do
  let n ← fixedNumber 2
  if n < least ∨ greatest < n then failure

def isLeap (year : Nat) : Bool := year % 4 = 0 && (year % 100 ≠ 0 || year % 400 = 0)

def daysIn (year month : Nat) : Nat :=
  match month with
  | 2 => if isLeap year then 29 else 28
  | 4 | 6 | 9 | 11 => 30
  | _ => 31

def day : Reader Unit := do
  let year ← fixedNumber 4
  char '-'
  let month ← fixedNumber 2
  if month < 1 ∨ 12 < month then failure
  char '-'
  twoDigits 1 (daysIn year month)

/-- A time of day. A minute may have a leap second. -/
def timeOfDay : Reader Unit := do
  twoDigits 0 23
  char ':'
  twoDigits 0 59
  char ':'
  twoDigits 0 60
  if ← took (· = '.') then
    discard (satisfying Char.isDigit)
    fun cs => some ((), cs.dropWhile Char.isDigit)

def offset : Reader Unit := do
  if ← took (fun c => c = 'Z' || c = 'z') then return
  discard (satisfying fun c => c = '+' || c = '-')
  twoDigits 0 23
  char ':'
  twoDigits 0 59

def date : Reader Unit := do
  day
  discard <| optional do
    discard (satisfying fun c => c = 'T' || c = 't' || c = ' ')
    timeOfDay
    optional offset

def moment : Reader Unit := date <|> timeOfDay

end ChunkStore.Toml
