import ChunkStore.Text.Decimal
import ChunkStore.Text.Hex

/-!
JSON values and their two written forms: on one line without blanks, or one member a line with two
blanks for each level.
-/

namespace ChunkStore

inductive Json where
  | null
  | boolean (value : Bool)
  | integer (value : Int)
  | text (value : String)
  | list (items : List Json)
  | object (members : List (String × Json))

namespace Json

def escape (c : Char) : String :=
  match c with
  | '"' => "\\\""
  | '\\' => "\\\\"
  | '\x08' => "\\b"
  | '\x0c' => "\\f"
  | '\n' => "\\n"
  | '\r' => "\\r"
  | '\t' => "\\t"
  | c => if c.toNat < 32 then "\\u00" ++ Hex.text [UInt8.ofNat c.toNat] else c.toString

def quote (s : String) : String := "\"" ++ String.join (s.toList.map escape) ++ "\""

mutual

def compact : Json → String
  | null => "null"
  | boolean value => if value then "true" else "false"
  | integer value => Decimal.ofInt value
  | text value => quote value
  | list items => "[" ++ ",".intercalate (compactItems items) ++ "]"
  | object members => "\x7b" ++ ",".intercalate (compactMembers members) ++ "\x7d"

def compactItems : List Json → List String
  | [] => []
  | item :: items => item.compact :: compactItems items

def compactMembers : List (String × Json) → List String
  | [] => []
  | (key, value) :: members => (quote key ++ ":" ++ value.compact) :: compactMembers members

end

def lineBreak (depth : Nat) : String := "\n" ++ String.ofList (List.replicate (2 * depth) ' ')

def spread (depth : Nat) (before : String) (parts : List String) (after : String) : String :=
  if parts.isEmpty then before ++ after
  else
    before ++ lineBreak (depth + 1) ++ ("," ++ lineBreak (depth + 1)).intercalate parts ++
      lineBreak depth ++ after

mutual

def pretty (depth : Nat) : Json → String
  | null => "null"
  | boolean value => if value then "true" else "false"
  | integer value => Decimal.ofInt value
  | text value => quote value
  | list items => spread depth "[" (prettyItems depth items) "]"
  | object members => spread depth "\x7b" (prettyMembers depth members) "\x7d"

def prettyItems (depth : Nat) : List Json → List String
  | [] => []
  | item :: items => item.pretty (depth + 1) :: prettyItems depth items

def prettyMembers (depth : Nat) : List (String × Json) → List String
  | [] => []
  | (key, value) :: members =>
    (quote key ++ ": " ++ value.pretty (depth + 1)) :: prettyMembers depth members

end

end Json
end ChunkStore
