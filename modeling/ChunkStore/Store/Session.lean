import ChunkStore.Cache
import ChunkStore.Chunk.Builder

/-!
What an open store does with its container. Every operation is one transaction, committed if it
succeeds and dropped if it fails.
-/

namespace ChunkStore

structure Session where
  writable : Bool
  id : StoreId
  cache : Cache
  recent : Option Descriptor

/-- Runs a task in a transaction. What the task learned is kept even if it fails. -/
def transact {μ α : Type} (writing : Bool) (task : Attempt (μ × Transaction) α) :
    Attempt (μ × Container) α := fun (m, c) =>
  match task (m, .begin writing c) with
  | .ok a (m, t) => .ok a (m, t.commit c)
  | .error e (m, _) => .error e (m, c)

def inTransaction {μ α : Type} (task : Attempt Transaction α) : Attempt (μ × Transaction) α :=
  .within Prod.snd (fun t s => (s.1, t)) task

namespace Session

def start (writable : Bool) (id : StoreId) (capacity : Nat) : Session :=
  ⟨writable, id, .empty capacity, none⟩

def forget (s : Session) : Session := { s with cache := s.cache.clear, recent := none }

def inCache {τ α : Type} (task : Attempt (Cache × τ) α) : Attempt (Session × τ) α :=
  .within (fun s => (s.1.cache, s.2)) (fun k s => ({ s.1 with cache := k.1 }, k.2)) task

def resolve (id : UInt64) : Attempt (Session × Transaction) Descriptor := fun (s, t) =>
  match s.recent.filter (·.persistedId = id) with
  | some d => .ok d (s, t)
  | none =>
    match inCache (Cache.get s.id id) (s, t) with
    | .ok d (s, t) => .ok d ({ s with recent := some d }, t)
    | .error e (s, t) => .error e (s, t)

def loadChunk (timestamp : Int64) (row : ChunkRow) : Attempt (Session × Transaction) Chunk := do
  let d ← resolve row.descriptorId
  return .ofParts d timestamp row.payload

def loadChunks : List (Int64 × ChunkRow) → Attempt (Session × Transaction) (List Chunk)
  | [] => pure []
  | (timestamp, row) :: rows => do
    let c ← loadChunk timestamp row
    let cs ← loadChunks rows
    return c :: cs

def storeChunk (chunk : Chunk) : Attempt (Session × Transaction) Descriptor := fun (s, t) =>
  let task := do
    let d ← inCache (Cache.intern s.id chunk.descriptor)
    inTransaction (Transaction.insertChunk chunk.timestamp ⟨d.persistedId, chunk.payload⟩)
    return d
  task (s, t)

/-- Stores a chunk. After a failure nothing is remembered, as numbers given out are void. -/
def put (chunk : Chunk) : Attempt (Session × Container) Unit := fun s =>
  match transact true (storeChunk chunk) s with
  | .ok d (s, c) => .ok () ({ s with recent := some d }, c)
  | .error e (s, c) => .error e (s.forget, c)

def find? (timestamp : Int64) : Attempt (Session × Container) (Option Chunk) :=
  transact false do
    match ← inTransaction (Transaction.selectChunk timestamp) with
    | none => return none
    | some row => return some (← loadChunk timestamp row)

def findBetween (first last : Int64) : Attempt (Session × Container) (List Chunk) :=
  transact false do loadChunks (← inTransaction (Transaction.selectChunks first last))

def maxTimestamp : Attempt (Session × Container) Int64 :=
  transact false (inTransaction Transaction.selectMaxTimestamp)

def metadata? (key : String) : Attempt (Session × Container) (Option String) :=
  transact false (inTransaction (Transaction.selectMeta key))

/-- The epoch in microseconds, -1 if it was not set. -/
def epoch : Attempt (Session × Container) Int64 := do
  match ← metadata? ReservedKey.epoch.text with
  | none => return -1
  | some text =>
    match Decimal.readInt64 text with
    | .ok epoch => return epoch
    | .error flaw => throw (.corrupt (.invalidEpoch text flaw))

def setEpoch (epoch : Int64) : Attempt (Session × Container) Unit := do
  if epoch < 0 then throw (.invalidArgument (.negativeEpoch epoch))
  transact true (inTransaction (Transaction.insertEpoch epoch))

def putMetadata (key value : String) : Attempt (Session × Container) Unit := do
  if ReservedKey.isReserved key then throw (.reservedKey key)
  transact true (inTransaction (Transaction.insertMeta key value))

end Session
end ChunkStore
