import ChunkStore.Store.Operation

/-!
A store that remembers nothing: it looks up every descriptor in the tables, each time. Nothing that
another store remembers may show beside it.
-/

namespace ChunkStore

namespace Plain

def transact {α : Type} (writing : Bool) (task : Attempt Transaction α) : Attempt Container α :=
  fun c =>
    match task (.begin writing c) with
    | .ok a t => .ok a (t.commit c)
    | .error e _ => .error e c

def resolve (scope : StoreId) (id : UInt64) : Attempt Transaction Descriptor := do
  match ← Transaction.selectDescriptor id with
  | none => throw (.descriptorNotFound id)
  | some bytes => Attempt.ofExcept (Descriptor.decode bytes id (some scope))

def intern (scope : StoreId) (d : Descriptor) : Attempt Transaction Descriptor :=
  let d := d.forStore scope
  if d.isPersisted then pure d
  else d.withPersistedId <$> Transaction.insertDescriptor d.encode

def loadChunk (scope : StoreId) (timestamp : Int64) (row : ChunkRow) : Attempt Transaction Chunk := do
  let d ← resolve scope row.descriptorId
  return .ofParts d timestamp row.payload

def loadChunks (scope : StoreId) : List (Int64 × ChunkRow) → Attempt Transaction (List Chunk)
  | [] => pure []
  | (timestamp, row) :: rows => do
    let c ← loadChunk scope timestamp row
    let cs ← loadChunks scope rows
    return c :: cs

def storeChunk (scope : StoreId) (chunk : Chunk) : Attempt Transaction Descriptor := do
  let d ← intern scope chunk.descriptor
  Transaction.insertChunk chunk.timestamp ⟨d.persistedId, chunk.payload⟩
  return d

def put (scope : StoreId) (chunk : Chunk) : Attempt Container Unit :=
  (fun _ => ()) <$> transact true (storeChunk scope chunk)

def find? (scope : StoreId) (timestamp : Int64) : Attempt Container (Option Chunk) :=
  transact false do
    match ← Transaction.selectChunk timestamp with
    | none => return none
    | some row => return some (← loadChunk scope timestamp row)

def findBetween (scope : StoreId) (first last : Int64) : Attempt Container (List Chunk) :=
  transact false do loadChunks scope (← Transaction.selectChunks first last)

def maxTimestamp : Attempt Container Int64 := transact false Transaction.selectMaxTimestamp

def metadata? (key : String) : Attempt Container (Option String) :=
  transact false (Transaction.selectMeta key)

def epoch : Attempt Container Int64 := do
  match ← metadata? ReservedKey.epoch.text with
  | none => return -1
  | some text =>
    match Decimal.readInt64 text with
    | .ok epoch => return epoch
    | .error flaw => throw (.corrupt (.invalidEpoch text flaw))

def setEpoch (epoch : Int64) : Attempt Container Unit := do
  if epoch < 0 then throw (.invalidArgument (.negativeEpoch epoch))
  transact true (Transaction.insertEpoch epoch)

def putMetadata (key value : String) : Attempt Container Unit := do
  if ReservedKey.isReserved key then throw (.reservedKey key)
  transact true (Transaction.insertMeta key value)

def serve (scope : StoreId) : Request → Attempt Container Answer
  | .put c => (fun _ => .done) <$> put scope c
  | .find t => .chunk <$> find? scope t
  | .findBetween t u => .chunks <$> findBetween scope t u
  | .maxTimestamp => .number <$> maxTimestamp
  | .epoch => .number <$> epoch
  | .setEpoch n => (fun _ => .done) <$> setEpoch n
  | .metadata k => .text <$> metadata? k
  | .putMetadata k v => (fun _ => .done) <$> putMetadata k v

inductive Phase where
  | initial
  | opened (writable : Bool) (id : StoreId)
  | closed

end Plain

structure PlainStore where
  path : String
  config : StoreConfig
  phase : Plain.Phase
  version : Int32

namespace PlainStore

def create (path : String) (config : StoreConfig) : PlainStore := ⟨path, config, .initial, 0⟩

def openFile (writable : Bool) (entropy : Uuid) : Attempt (PlainStore × File) Unit := fun (s, f) =>
  match s.phase with
  | .opened _ _ | .closed => .error .alreadyOpened (s, f)
  | .initial =>
    let closed := { s with phase := .closed }
    match File.acquire s.path writable s.config f with
    | .error e f => .error e (closed, f)
    | .ok c _ =>
      match Plain.transact writable (Upgrade.setUp writable entropy) c with
      | .error e c => .error e (closed, .container false c)
      | .ok (version, id) c =>
        .ok () ({ s with phase := .opened writable id, version }, .container true c)

def close (s : PlainStore) (f : File) : PlainStore × File :=
  match s.phase with
  | .opened _ _ => ({ s with phase := .closed }, f.release)
  | .initial | .closed => ({ s with phase := .closed }, f)

def ask (r : Request) : Attempt (PlainStore × Container) Answer := fun (s, c) =>
  match s.phase with
  | .initial | .closed => .error .storeClosed (s, c)
  | .opened writable id =>
    if r.isWriting && !writable then .error .notWritable (s, c)
    else Attempt.within Prod.snd (fun c u => (u.1, c)) (Plain.serve id r) (s, c)

def run : Operation → Attempt (PlainStore × File) Answer
  | .openFile writable entropy => (fun _ => .done) <$> openFile writable entropy
  | .close => fun (s, f) => .ok .done (s.close f)
  | .ask r => Store.onFile (ask r)

end PlainStore
end ChunkStore
