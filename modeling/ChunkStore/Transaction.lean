import ChunkStore.Attempt
import ChunkStore.ReservedKey
import ChunkStore.Schema

/-!
Transactions on a container. A reader sees the container as it was when it began, a writer its own
changes too. A writer creates a missing table when it opens it, also to look something up; to a
reader a missing table is empty.
-/

namespace ChunkStore

structure Transaction where
  writing : Bool
  view : Container
  deriving DecidableEq

namespace Transaction

def begin (writing : Bool) (c : Container) : Transaction := ⟨writing, c⟩

def begin? (writable writing : Bool) (c : Container) : Except Error Transaction :=
  if writing && !writable then .error .notWritable else .ok (begin writing c)

def commit (t : Transaction) (c : Container) : Container := if t.writing then t.view else c

variable {κ ν : Type} [LT κ]

def openTable (slot : Container.Slot κ ν) (action : Action) : Attempt Transaction (Rows κ ν) :=
  fun t =>
    match slot.get t.view with
    | .stored rows => .ok rows t
    | .foreign types =>
      .error (.file action (.tableTypes slot.name.text types.key types.value)) t
    | .missing =>
      .ok Rows.empty (if t.writing then { t with view := slot.set (.stored Rows.empty) t.view } else t)

def requireWriter : Attempt Transaction Unit := fun t =>
  if t.writing then .ok () t else .error .notWritable t

def putRows (slot : Container.Slot κ ν) (rows : Rows κ ν) : Attempt Transaction Unit := fun t =>
  .ok () { t with view := slot.set (.stored rows) t.view }

def selectMeta (key : String) : Attempt Transaction (Option String) := do
  let rows ← openTable .metadata .selectMeta
  return rows.find? key

def insertMeta (key value : String) : Attempt Transaction Unit := do
  requireWriter
  let rows ← openTable .metadata .insertMeta
  putRows .metadata (rows.insert key value)

def insertEpoch (epoch : Int64) : Attempt Transaction Unit := do
  match ← selectMeta ReservedKey.epoch.text with
  | some _ => throw .epochAlreadySet
  | none => insertMeta ReservedKey.epoch.text (Decimal.ofInt epoch.toInt)

def versionOf (text : Option String) : Int32 :=
  match text.map Decimal.readInt32 with
  | some (.ok version) => version
  | _ => 0

/-- The schema version of the container, 0 if it has none. This creates no table. -/
def selectVersion : Attempt Transaction Int32 := fun t =>
  if t.writing && t.view.metadata = .missing then .ok 0 t
  else (versionOf <$> selectMeta ReservedKey.version.text) t

def createTable : TableName → Attempt Transaction Unit
  | .metadata => discard (openTable .metadata .migrate)
  | .descriptors => discard (openTable .descriptors .migrate)
  | .contents => discard (openTable .contents .migrate)
  | .chunks => discard (openTable .chunks .migrate)

def createTables : List TableName → Attempt Transaction Unit
  | [] => pure ()
  | name :: names => do
    createTable name
    createTables names

def migrate (step : SchemaStep) : Attempt Transaction Unit := do
  requireWriter
  createTables step.creates

/-- One more than the last number. The sum is 0 if that was the greatest number there is. -/
def nextId (rows : Rows UInt64 Bytes) : UInt64 :=
  match rows.last? with
  | some (id, _) => id + 1
  | none => 1

def addDescriptor (ids : Rows Bytes UInt64) (bytes : Bytes) : Attempt Transaction UInt64 := do
  let rows ← openTable .descriptors .insertDescriptor
  let id := nextId rows
  -- Arithmetic is checked: where the sum overflows, the call stops. (Built without the checks, it
  -- would go on with 0.)
  if id = 0 then throw (.file .insertDescriptor (.described "attempt to add with overflow"))
  putRows .descriptors (rows.insert id bytes)
  putRows .contents (ids.insert bytes id)
  return id

def insertDescriptor (bytes : Bytes) : Attempt Transaction UInt64 := do
  requireWriter
  let ids ← openTable .contents .insertDescriptor
  match ids.find? bytes with
  | some id => return id
  | none => addDescriptor ids bytes

def selectDescriptor (id : UInt64) : Attempt Transaction (Option Bytes) := do
  let rows ← openTable .descriptors .selectDescriptor
  return rows.find? id

def insertChunk (timestamp : Int64) (row : ChunkRow) : Attempt Transaction Unit := do
  requireWriter
  let rows ← openTable .chunks .insertChunk
  putRows .chunks (rows.insert timestamp row)

def selectChunk (timestamp : Int64) : Attempt Transaction (Option ChunkRow) := do
  let rows ← openTable .chunks .selectChunk
  return rows.find? timestamp

def selectChunks (first last : Int64) : Attempt Transaction (List (Int64 × ChunkRow)) :=
  if last < first then pure []
  else do
    let rows ← openTable .chunks .selectChunkRange
    return rows.between first last

/-- The greatest timestamp, -1 if there is no chunk. -/
def selectMaxTimestamp : Attempt Transaction Int64 := do
  let rows ← openTable .chunks .selectMaxTimestamp
  match rows.last? with
  | some (timestamp, _) => return timestamp
  | none => return -1

end Transaction
end ChunkStore
