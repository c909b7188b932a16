import ChunkStore.Bytes
import ChunkStore.Container.Rows

/-!
A container holds four tables: metadata, descriptors by number, numbers by descriptor, and chunks by
timestamp. A table can be missing, and a table of another program can be in the place of one.
-/

namespace ChunkStore

/-- The names of the types that a table of another program has for its rows. -/
structure RowTypes where
  key : String
  value : String
  deriving DecidableEq, Repr

inductive Table (κ ν : Type) [LT κ] where
  | missing
  | foreign (types : RowTypes)
  | stored (rows : Rows κ ν)
  deriving DecidableEq

def Table.rows {κ ν : Type} [LT κ] : Table κ ν → Rows κ ν
  | stored rows => rows
  | missing | foreign _ => Rows.empty

structure ChunkRow where
  descriptorId : UInt64
  payload : Bytes
  deriving DecidableEq, Repr

structure Container where
  metadata : Table String String := .missing
  descriptors : Table UInt64 Bytes := .missing
  contents : Table Bytes UInt64 := .missing
  chunks : Table Int64 ChunkRow := .missing
  others : List String := []
  deriving DecidableEq

inductive TableName where
  | metadata
  | descriptors
  | contents
  | chunks
  deriving DecidableEq, Repr

namespace TableName

def all : List TableName := [metadata, descriptors, contents, chunks]

def text : TableName → String
  | metadata => "meta"
  | descriptors => "track_descriptor"
  | contents => "track_descriptor_content"
  | chunks => "track"

end TableName

namespace Container

def empty : Container := {}

def addForeign (c : Container) (name : String) (types : RowTypes) : Container :=
  match TableName.all.find? fun t => t.text = name with
  | some .metadata => { c with metadata := .foreign types }
  | some .descriptors => { c with descriptors := .foreign types }
  | some .contents => { c with contents := .foreign types }
  | some .chunks => { c with chunks := .foreign types }
  | none => { c with others := name :: c.others.filter (· ≠ name) }

structure Slot (κ ν : Type) [LT κ] where
  name : TableName
  get : Container → Table κ ν
  set : Table κ ν → Container → Container

namespace Slot

def metadata : Slot String String :=
  ⟨.metadata, Container.metadata, fun t c => { c with metadata := t }⟩

def descriptors : Slot UInt64 Bytes :=
  ⟨.descriptors, Container.descriptors, fun t c => { c with descriptors := t }⟩

def contents : Slot Bytes UInt64 :=
  ⟨.contents, Container.contents, fun t c => { c with contents := t }⟩

def chunks : Slot Int64 ChunkRow :=
  ⟨.chunks, Container.chunks, fun t c => { c with chunks := t }⟩

end Slot
end Container

end ChunkStore
