import ChunkStore.Text.Hex

/-!
What settings are written with: blanks, comments, and texts between quotes. A reader takes what it
knows off the front and leaves the rest.
-/

namespace ChunkStore.Toml

abbrev Reader (α : Type) := StateT (List Char) Option α

def satisfying (p : Char → Bool) : Reader Char
  | c :: rest => if p c then some (c, rest) else none
  | [] => none

def took (p : Char → Bool) : Reader Bool
  | c :: rest => if p c then some (true, rest) else some (false, c :: rest)
  | [] => some (false, [])

def char (c : Char) : Reader Unit := discard (satisfying (· = c))

def word (s : String) : Reader Unit := fun cs =>
  if s.toList.isPrefixOf cs then some ((), cs.drop s.length) else none

def taken {α : Type} (read : Reader α) : Reader String := fun cs =>
  (read cs).map fun (_, rest) => (String.ofList (cs.take (cs.length - rest.length)), rest)

def isBlank (c : Char) : Bool := c = ' ' || c = '\t'

def isPlain (c : Char) : Bool := c = '\t' || 32 ≤ c.toNat && c.toNat ≠ 127

def blanks : Reader Unit := fun cs => some ((), cs.dropWhile isBlank)

def skipLines (inComment : Bool) : List Char → List Char
  | [] => []
  | c :: rest =>
    if c = '\n' then skipLines false rest
    else if inComment then if isPlain c then skipLines true rest else c :: rest
    else if isBlank c then skipLines false rest
    else if c = '#' then skipLines true rest
    else c :: rest

def skipComment : List Char → List Char
  | '#' :: rest => rest.dropWhile isPlain
  | cs => cs

def lineEnd : Reader Unit := fun cs =>
  match skipComment (cs.dropWhile isBlank) with
  | [] => some ((), [])
  | '\n' :: rest => some ((), rest)
  | _ => none

def joinLineBreaks : List Char → List Char
  | '\r' :: '\n' :: rest => '\n' :: joinLineBreaks rest
  | c :: rest => c :: joinLineBreaks rest
  | [] => []

def hexValue? (cs : List Char) : Option Nat :=
  (cs.mapM Nibble.ofChar?).map fun ns => ns.foldl (fun n d => 16 * n + d.val) 0

def scalar? (cs : List Char) : Option Char := do
  let n ← hexValue? cs
  if n < 0xD800 ∨ 0xDFFF < n ∧ n < 0x110000 then some (Char.ofNat n) else none

def escaped? : Char → Option Char
  | 'b' => some '\x08'
  | 't' => some '\t'
  | 'n' => some '\n'
  | 'f' => some '\x0c'
  | 'r' => some '\r'
  | '"' => some '"'
  | '\\' => some '\\'
  | _ => none

def endsLine (cs : List Char) : Bool := (cs.dropWhile isBlank).head? = some '\n'

/-- Text up to the closing quote, or up to three of them if it may have `lines`. After a backslash
at the end of a line it is `skipping` to the next character that is not blank. -/
def quoted (lines skipping : Bool) : Reader (List Char)
  | '"' :: '"' :: '"' :: '"' :: '"' :: rest => if lines then some (['"', '"'], rest) else none
  | '"' :: '"' :: '"' :: '"' :: rest => if lines then some (['"'], rest) else none
  | '"' :: '"' :: '"' :: rest => if lines then some ([], rest) else some ([], '"' :: '"' :: rest)
  | '"' :: rest =>
    if lines then (quoted lines false rest).map fun (t, r) => ('"' :: t, r) else some ([], rest)
  | '\\' :: 'u' :: a :: b :: c :: d :: rest => do
    let ch ← scalar? [a, b, c, d]
    let (t, r) ← quoted lines false rest
    return (ch :: t, r)
  | '\\' :: 'U' :: a :: b :: c :: d :: e :: f :: g :: h :: rest => do
    let ch ← scalar? [a, b, c, d, e, f, g, h]
    let (t, r) ← quoted lines false rest
    return (ch :: t, r)
  | '\\' :: c :: rest =>
    match escaped? c with
    | some c => (quoted lines false rest).map fun (t, r) => (c :: t, r)
    | none => if lines && endsLine (c :: rest) then quoted lines true rest else none
  | c :: rest =>
    if skipping && (isBlank c || c = '\n') then quoted lines true rest
    else if isPlain c || lines && c = '\n' then
      (quoted lines false rest).map fun (t, r) => (c :: t, r)
    else none
  | [] => none

def literal (lines : Bool) : Reader (List Char)
  | '\'' :: '\'' :: '\'' :: rest =>
    if lines then
      match rest with
      | '\'' :: '\'' :: rest => some (['\'', '\''], rest)
      | '\'' :: rest => some (['\''], rest)
      | rest => some ([], rest)
    else some ([], '\'' :: '\'' :: rest)
  | '\'' :: rest =>
    if lines then (literal lines rest).map fun (t, r) => ('\'' :: t, r) else some ([], rest)
  | c :: rest =>
    if isPlain c || lines && c = '\n' then (literal lines rest).map fun (t, r) => (c :: t, r)
    else none
  | [] => none

def skipLineBreak : List Char → List Char
  | '\n' :: rest => rest
  | cs => cs

def text : Reader String := fun cs =>
  let read := match cs with
    | '"' :: '"' :: '"' :: rest => quoted true false (skipLineBreak rest)
    | '"' :: rest => quoted false false rest
    | '\'' :: '\'' :: '\'' :: rest => literal true (skipLineBreak rest)
    | '\'' :: rest => literal false rest
    | _ => none
  read.map fun (t, rest) => (String.ofList t, rest)

end ChunkStore.Toml
