import ChunkStore.Store.Operation

/-!
Runs of any number of stores on one file, with what was asked and what was answered, the latest
event first.
-/

namespace ChunkStore

structure Event where
  operation : Operation
  outcome : Except Error Answer

structure Stored where
  timestamp : Int64
  tracks : TrackList
  payload : Bytes

namespace Event

def stored? (e : Event) : Option Stored :=
  match e.operation, e.outcome with
  | .ask (.put c), .ok _ => some ⟨c.timestamp, c.descriptor.toTrackList, c.payload⟩
  | _, _ => none

def found (e : Event) : List Chunk :=
  match e.operation, e.outcome with
  | .ask (.find _), .ok (.chunk c) => c.toList
  | .ask (.findBetween _ _), .ok (.chunks cs) => cs
  | _, _ => []

def noted? (e : Event) : Option (String × String) :=
  match e.operation, e.outcome with
  | .ask (.putMetadata key value), .ok _ => some (key, value)
  | _, _ => none

def epoch? (e : Event) : Option Int64 :=
  match e.operation, e.outcome with
  | .ask (.setEpoch n), .ok _ => some n
  | _, _ => none

end Event

abbrev History := List Event

namespace History

def stored (h : History) : List Stored := h.filterMap Event.stored?

def last? (h : History) (timestamp : Int64) : Option Stored :=
  h.stored.find? fun x => x.timestamp = timestamp

def note? (h : History) (key : String) : Option String :=
  ((h.filterMap Event.noted?).find? fun x => x.1 = key).map Prod.snd

def epochs (h : History) : List Int64 := h.filterMap Event.epoch?

/-- Where a descriptor may come from that is put into the store `scope`: from a builder, from a
chunk that was found, or from another store. -/
inductive Sourced (scope : StoreId) (h : History) : Descriptor → Prop where
  | built {b : DescriptorBuilder} {d : Descriptor} : b.build.1 = .ok d → Sourced scope h d
  | rescoped {d : Descriptor} (id : StoreId) : Sourced scope h d → Sourced scope h (d.forStore id)
  | found {e : Event} {c : Chunk} : e ∈ h → c ∈ e.found → Sourced scope h c.descriptor
  | elsewhere {d : Descriptor} {other : StoreId} : d.scope = some other → other ≠ scope →
      Sourced scope h d

/-- What a store may be asked: the descriptor of a chunk to put must not be made up. -/
def Allows (h : History) (s : Store) (op : Operation) : Prop :=
  ∀ chunk session, op = .ask (.put chunk) → s.phase = .opened session →
    Sourced session.id h chunk.descriptor

end History

structure World where
  file : File
  stores : List Store

namespace World

def container (w : World) : Container := w.file.container?.getD .empty

def create (w : World) (path : String) (config : StoreConfig) : World :=
  { w with stores := w.stores ++ [Store.create path config] }

def after (w : World) (i : Nat) (s : Store) (op : Operation) : World :=
  let (t, f) := Attempt.state (op.run (s, w.file))
  ⟨f, w.stores.set i t⟩

/-- What can come of a file that is missing at first, and of which only stores make anything. -/
inductive Reached : World → History → Prop where
  | start : Reached ⟨.missing, []⟩ []
  | create {w : World} {h : History} (path : String) (config : StoreConfig) :
      Reached w h → Reached (w.create path config) h
  | call {w : World} {h : History} {s : Store} (i : Nat) (op : Operation) :
      Reached w h → w.stores[i]? = some s → h.Allows s op →
        Reached (w.after i s op) (⟨op, Attempt.outcome (op.run (s, w.file))⟩ :: h)

inductive Run (start : World) : World → History → Prop where
  | start : Run start start []
  | create {w : World} {h : History} (path : String) (config : StoreConfig) :
      Run start w h → Run start (w.create path config) h
  | call {w : World} {h : History} {s : Store} (i : Nat) (op : Operation) :
      Run start w h → w.stores[i]? = some s →
        Run start (w.after i s op) (⟨op, Attempt.outcome (op.run (s, w.file))⟩ :: h)

end World
end ChunkStore
