import ChunkStore.Toml.Date
import ChunkStore.Toml.Key
import ChunkStore.Toml.Tree

/-!
Values: texts, numbers, booleans, dates, lists in brackets, and tables in braces. Lists may have
line breaks and comments between their items and a comma behind the last; tables stand on one line.
-/

namespace ChunkStore.Toml

def scalar : Reader Document :=
  (Document.text <$> text) <|> (Document.date <$> taken moment) <|>
    (Document.decimal <$> taken (decimal <|> special)) <|> (Document.integer <$> integer) <|>
    (word "true" *> pure (.boolean true)) <|> (word "false" *> pure (.boolean false))

def items (item : Reader Document) (cs : List Char) : Option (List Document × List Char) :=
  match skipLines false cs with
  | ']' :: rest => some ([], rest)
  | start => do
    let (d, rest) ← item start
    match skipLines false rest with
    | ']' :: rest => return ([d], rest)
    | ',' :: rest =>
      if rest.length < cs.length then
        let (ds, rest) ← items item rest
        return (d :: ds, rest)
      else none
    | _ => none
termination_by cs.length

def member (item : Reader Document) : Reader (List String × Document) := do
  let keys ← dottedKey depth
  char '='
  blanks
  return (keys, ← item)

def members (item : Reader Document) (entries : Entries) (cs : List Char) :
    Option (Entries × List Char) := do
  let ((keys, d), rest) ← member item cs
  let entries ← entries.assign? d true keys
  match rest.dropWhile isBlank with
  | '\x7d' :: rest => return (entries, rest)
  | ',' :: rest => if rest.length < cs.length then members item entries rest else none
  | _ => none
termination_by cs.length

def value : Nat → Reader Document
  | 0 => scalar
  | room + 1 => fun cs =>
    match cs with
    | '[' :: rest => (items (value room) rest).map fun (ds, rest) => (.list ds, rest)
    | '\x7b' :: rest =>
      match rest.dropWhile isBlank with
      | '\x7d' :: rest => some (.table [], rest)
      | rest => (members (value room) [] rest).map fun (es, rest) => (.table (documents es), rest)
    | cs => scalar cs

end ChunkStore.Toml
