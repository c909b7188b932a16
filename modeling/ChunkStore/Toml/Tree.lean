import ChunkStore.Document

/-!
Tables while they are filled. A table has one header at most; keys with dots make tables on the way
and fill no table but those. A list of tables grows at its end, and what is put into it goes into
the last.
-/

namespace ChunkStore.Toml

inductive Origin where
  | header
  | implied
  | dotted
  deriving DecidableEq

inductive Item where
  | value (d : Document)
  | table (origin : Origin) (entries : List (String × Item))
  | tables (earlier : List Document) (latest : List (String × Item))

abbrev Entries := List (String × Item)

mutual

def Item.document : Item → Document
  | .value d => d
  | .table _ entries => .table (documents entries)
  | .tables earlier latest => .list (earlier ++ [.table (documents latest)])

def documents : List (String × Item) → List (String × Document)
  | [] => []
  | (key, item) :: entries => (key, item.document) :: documents entries

end

namespace Entries

def find? (entries : Entries) (key : String) : Option Item :=
  (List.find? (fun e => e.1 = key) entries).map Prod.snd

def put (key : String) (item : Item) : Entries → Entries
  | [] => [(key, item)]
  | e :: es => if e.1 = key then (key, item) :: es else e :: put key item es

def modify? (f : Entries → Option Entries) : List String → Entries → Option Entries
  | [], entries => f entries
  | key :: path, entries =>
    match entries.find? key with
    | none => (modify? f path []).map fun inner => entries.put key (.table .implied inner)
    | some (.table origin inner) =>
      (modify? f path inner).map fun inner => entries.put key (.table origin inner)
    | some (.tables earlier latest) =>
      (modify? f path latest).map fun latest => entries.put key (.tables earlier latest)
    | some (.value _) => none

def start? (key : String) (entries : Entries) : Option Entries :=
  match entries.find? key with
  | none => some (entries.put key (.table .header []))
  | some (.table .implied inner) => some (entries.put key (.table .header inner))
  | _ => none

def push? (key : String) (entries : Entries) : Option Entries :=
  match entries.find? key with
  | none => some (entries.put key (.tables [] []))
  | some (.tables earlier latest) =>
    some (entries.put key (.tables (earlier ++ [.table (documents latest)]) []))
  | _ => none

/-- Puts a value under keys, the last of which must be new. The table for it must be `free`, which
on the way are those that keys with dots made. -/
def assign? (v : Document) (free : Bool) : List String → Entries → Option Entries
  | [], _ => none
  | [key], entries =>
    if free && (entries.find? key).isNone then some (entries.put key (.value v)) else none
  | key :: keys, entries =>
    match entries.find? key with
    | none => (assign? v true keys []).map fun inner => entries.put key (.table .dotted inner)
    | some (.table .header _) => none
    | some (.table origin inner) =>
      (assign? v (origin = .dotted) keys inner).map fun inner =>
        entries.put key (.table origin inner)
    | some (.tables earlier latest) =>
      (assign? v false keys latest).map fun latest => entries.put key (.tables earlier latest)
    | some (.value _) => none

end Entries
end ChunkStore.Toml
