import ChunkStore.Toml.Text

/-!
Keys: a word of letters, digits, dashes and underscores, or a text on one line between quotes. Keys
joined by dots lead from a table to one further in.
-/

namespace ChunkStore.Toml

def isKeyChar (c : Char) : Bool := c.isAlphanum || c = '-' || c = '_'

def simpleKey : Reader String
  | '"' :: rest => (quoted false false rest).map fun (t, r) => (String.ofList t, r)
  | '\'' :: rest => (literal false rest).map fun (t, r) => (String.ofList t, r)
  | cs =>
    match cs.takeWhile isKeyChar with
    | [] => none
    | key => some (String.ofList key, cs.dropWhile isKeyChar)

def dottedKey : Nat → Reader (List String)
  | 0 => failure
  | room + 1 => do
    blanks
    let key ← simpleKey
    blanks
    if ← took (· = '.') then return key :: (← dottedKey room) else return [key]

/-- The most keys in a row, and the most lists and tables in each other. -/
def depth : Nat := 79

end ChunkStore.Toml
