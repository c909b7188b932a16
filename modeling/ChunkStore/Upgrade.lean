import ChunkStore.Transaction

/-!
What a store does first in a container: a writer brings the schema up to date and gives a new
container its identity, a reader checks both.
-/

namespace ChunkStore.Upgrade

def applySteps (version : Int32) : List SchemaStep → Attempt Transaction Int32
  | [] => pure version
  | step :: rest => fun t =>
    let next := version + 1
    let taken := do
      Transaction.migrate step
      Transaction.insertMeta ReservedKey.version.text (Decimal.ofInt next.toInt)
    match taken t with
    | .ok _ t => applySteps next rest t
    | .error e t => .error (.migrationFailed version step.name e) t

def identity (text : Option String) : Except Error StoreId :=
  match text with
  | none => .error (.invalidIdentity .absent)
  | some text => (StoreId.read text).mapError .invalidIdentity

/-- Takes the steps that are due. The identity is made from `entropy` if there is none and a step
was due. -/
def upgrade (entropy : Uuid) : Attempt Transaction (Int32 × StoreId) := do
  let found ← Transaction.selectVersion
  let version ← applySteps found (Schema.pending found)
  let text ← Transaction.selectMeta ReservedKey.id.text
  if text.isNone ∧ found < Schema.expectedVersion then
    let id := StoreId.fresh entropy
    Transaction.insertMeta ReservedKey.id.text id.text
    return (version, id)
  else
    return (version, ← Attempt.ofExcept (identity text))

def validate : Attempt Transaction (Int32 × StoreId) := do
  let version ← Transaction.selectVersion
  if version < Schema.expectedVersion then
    throw (.schemaTooOld version Schema.expectedVersion)
  let text ← Transaction.selectMeta ReservedKey.id.text
  return (version, ← Attempt.ofExcept (identity text))

def setUp (writable : Bool) (entropy : Uuid) : Attempt Transaction (Int32 × StoreId) :=
  if writable then upgrade entropy else validate

end ChunkStore.Upgrade
