import ChunkStore.TrackList

/-!
A descriptor says what a chunk's fields are: its tracks, the store they belong to, and the number
under which that store keeps them, 0 as long as it does not. Descriptors are put together track by
track in a builder, in any order.
-/

namespace ChunkStore

structure Descriptor extends TrackList where
  scope : Option StoreId
  persistedId : UInt64
  deriving DecidableEq

namespace Descriptor

def isPersisted (d : Descriptor) : Bool := d.persistedId ≠ 0

/-- The same tracks for the store `id`. What another store keeps under a number is not known
to this one. -/
def forStore (d : Descriptor) (id : StoreId) : Descriptor :=
  if d.scope = some id then d else { d with scope := some id, persistedId := 0 }

def withPersistedId (d : Descriptor) (id : UInt64) : Descriptor := { d with persistedId := id }

def sameContent (d e : Descriptor) : Bool :=
  d.scope = e.scope ∧ d.toTrackList = e.toTrackList

def decode (bs : Bytes) (id : UInt64) (scope : Option StoreId) : Except Error Descriptor :=
  match TrackList.decode id bs with
  | .ok l => .ok { l with scope := scope, persistedId := id }
  | .error e => .error e

end Descriptor

structure DescriptorBuilder where
  added : List Track
  scope : Option StoreId

namespace DescriptorBuilder

def empty (scope : Option StoreId) : DescriptorBuilder := ⟨[], scope⟩

def add (b : DescriptorBuilder) (t : Track) : DescriptorBuilder := { b with added := b.added ++ [t] }

def build (b : DescriptorBuilder) : Except Error Descriptor × DescriptorBuilder :=
  match TrackList.ofList b.added with
  | .ok l => (.ok { l with scope := b.scope, persistedId := 0 }, empty b.scope)
  | .error e => (.error e, empty b.scope)

end DescriptorBuilder
end ChunkStore
