import ChunkStore.Descriptor
import ChunkStore.Transaction

/-!
Descriptors that a store has seen, by number and by written form, so that it need not look them up
again. All work is done in the caller's transaction.
-/

namespace ChunkStore

structure Cache where
  /-- The most descriptors that are kept, 0 for any number. -/
  capacity : Nat
  byId : Rows UInt64 Descriptor
  byContent : Rows Bytes UInt64

namespace Cache

def empty (capacity : Nat) : Cache := ⟨capacity, Rows.empty, Rows.empty⟩

def size (k : Cache) : Nat := k.byId.size

def clear (k : Cache) : Cache := empty k.capacity

def isFull (k : Cache) : Bool := k.capacity ≠ 0 ∧ k.capacity ≤ k.size

/-- Keeps a descriptor with its written form. A full cache is emptied first. -/
def insert (k : Cache) (bytes : Bytes) (d : Descriptor) : Cache :=
  let k := if k.isFull then k.clear else k
  { k with
    byId := k.byId.insert d.persistedId d
    byContent := k.byContent.insert bytes d.persistedId }

def findContent? (k : Cache) (bytes : Bytes) : Option Descriptor :=
  (k.byContent.find? bytes).bind k.byId.find?

def get (scope : StoreId) (id : UInt64) : Attempt (Cache × Transaction) Descriptor := fun (k, t) =>
  match k.byId.find? id with
  | some d => .ok d (k, t)
  | none =>
    match Transaction.selectDescriptor id t with
    | .error e t => .error e (k, t)
    | .ok none t => .error (.descriptorNotFound id) (k, t)
    | .ok (some bytes) t =>
      match Descriptor.decode bytes id (some scope) with
      | .error e => .error e (k, t)
      | .ok d => .ok d (k.insert bytes d, t)

def intern (scope : StoreId) (d : Descriptor) : Attempt (Cache × Transaction) Descriptor :=
  fun (k, t) =>
    let d := d.forStore scope
    if d.isPersisted then .ok d (k, t)
    else
      match k.findContent? d.encode with
      | some known => .ok known (k, t)
      | none =>
        match Transaction.insertDescriptor d.encode t with
        | .error e t => .error e (k, t)
        | .ok id t => .ok (d.withPersistedId id) (k.insert d.encode (d.withPersistedId id), t)

end Cache
end ChunkStore
