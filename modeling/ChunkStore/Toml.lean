import ChunkStore.Toml.Value

/-!
Settings written line by line: `key = value` under headers in brackets. A header in one pair of
brackets opens a table, one in two pairs adds a table to a list.
-/

namespace ChunkStore.Toml

structure Progress where
  entries : Entries := []
  header : List String := []

def Progress.modify? (p : Progress) (header : List String) (f : String → Entries → Option Entries) :
    Option Progress := do
  let key ← header.getLast?
  return { entries := ← p.entries.modify? (f key) header.dropLast, header }

def Progress.assign? (p : Progress) (keys : List String) (d : Document) : Option Progress := do
  return { p with entries := ← p.entries.modify? (Entries.assign? d true keys) p.header }

def line (p : Progress) (cs : List Char) : Option (Progress × List Char) :=
  match cs with
  | '[' :: '[' :: rest => do
    let (header, rest) ← dottedKey depth rest
    let (_, rest) ← word "]]" rest
    let (_, rest) ← lineEnd rest
    return (← p.modify? header Entries.push?, rest)
  | '[' :: rest => do
    let (header, rest) ← dottedKey depth rest
    let (_, rest) ← word "]" rest
    let (_, rest) ← lineEnd rest
    return (← p.modify? header Entries.start?, rest)
  | cs => do
    let ((keys, d), rest) ← member (value depth) cs
    let (_, rest) ← lineEnd rest
    return (← p.assign? keys d, rest)

def readLines (p : Progress) (cs : List Char) : Option Progress :=
  match skipLines false cs with
  | [] => some p
  | start => do
    let (p, rest) ← line p start
    if rest.length < cs.length then readLines p rest else none
termination_by cs.length

def dropMark : List Char → List Char
  | '\ufeff' :: rest => rest
  | cs => cs

def read (s : String) : Option Document :=
  (readLines {} (joinLineBreaks (dropMark s.toList))).map fun p => .table (documents p.entries)

end ChunkStore.Toml
