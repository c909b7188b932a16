import ChunkStore.Container.Basic

/-!
The steps that bring a container up to date. Step `n` leads from schema version `n - 1` to `n`.
-/

namespace ChunkStore

structure SchemaStep where
  name : String
  creates : List TableName
  deriving DecidableEq, Repr

namespace Schema

def steps : List SchemaStep :=
  [⟨"0001_meta_and_descriptors", [.metadata, .descriptors, .contents]⟩, ⟨"0002_track", [.chunks]⟩]

def expectedVersion : Int32 := Int32.ofNat steps.length

/-- The steps that a container of a version still needs; one below 0 needs all of them. -/
def pending (version : Int32) : List SchemaStep := steps.drop version.toNatClampNeg

end Schema
end ChunkStore
