import ChunkStore.Transaction

/-!
A handle of a container and the transactions that are begun on it. There is any number of readers at
a time, each with what was committed when it began, and one writer.
-/

namespace ChunkStore

namespace Transaction

inductive Call where
  | selectMeta (key : String)
  | selectVersion
  | selectDescriptor (id : UInt64)
  | selectChunk (timestamp : Int64)
  | selectChunks (first last : Int64)
  | selectMaxTimestamp
  | insertMeta (key value : String)
  | migrate (step : SchemaStep)
  | insertDescriptor (bytes : Bytes)
  | insertChunk (timestamp : Int64) (row : ChunkRow)

inductive Reply where
  | done
  | text (value : Option String)
  | version (n : Int32)
  | id (n : UInt64)
  | bytes (found : Option Bytes)
  | row (found : Option ChunkRow)
  | rows (found : List (Int64 × ChunkRow))
  | timestamp (t : Int64)
  deriving DecidableEq

namespace Call

def isWriting : Call → Bool
  | insertMeta _ _ | migrate _ | insertDescriptor _ | insertChunk _ _ => true
  | selectMeta _ | selectVersion | selectDescriptor _ | selectChunk _ | selectChunks _ _
  | selectMaxTimestamp => false

def run : Call → Attempt Transaction Reply
  | selectMeta key => .text <$> Transaction.selectMeta key
  | selectVersion => .version <$> Transaction.selectVersion
  | selectDescriptor id => .bytes <$> Transaction.selectDescriptor id
  | selectChunk timestamp => .row <$> Transaction.selectChunk timestamp
  | selectChunks first last => .rows <$> Transaction.selectChunks first last
  | selectMaxTimestamp => .timestamp <$> Transaction.selectMaxTimestamp
  | insertMeta key value => (fun _ => .done) <$> Transaction.insertMeta key value
  | migrate step => (fun _ => .done) <$> Transaction.migrate step
  | insertDescriptor bytes => .id <$> Transaction.insertDescriptor bytes
  | insertChunk timestamp row => (fun _ => .done) <$> Transaction.insertChunk timestamp row

end Call

def runAll (calls : List Call) (t : Transaction) : Transaction :=
  calls.foldl (fun t call => Attempt.state (call.run t)) t

end Transaction

open Transaction (Call)

namespace Container

def amend (c : Container) (calls : List Call) : Container :=
  (Transaction.runAll calls (.begin true c)).commit c

def amendAll (c : Container) (log : List (List Call)) : Container := log.foldl amend c

end Container

structure Live where
  transaction : Transaction
  base : List (List Call)
  calls : List Call

def Live.call (l : Live) (call : Call) : Live :=
  { l with transaction := Attempt.state (call.run l.transaction), calls := l.calls ++ [call] }

structure Handle where
  contents : Container
  /-- The calls of every writer that was committed, in the order of the commits. -/
  log : List (List Call)
  live : List Live

namespace Handle

def hasWriter (h : Handle) : Prop := ∃ l ∈ h.live, l.transaction.writing = true

def beginWith (h : Handle) (t : Transaction) : Handle :=
  { h with live := h.live ++ [⟨t, h.log, []⟩] }

def call (h : Handle) (i : Nat) (l : Live) (call : Call) : Handle :=
  { h with live := h.live.set i (l.call call) }

def commit (h : Handle) (i : Nat) (l : Live) : Handle where
  contents := l.transaction.commit h.contents
  log := if l.transaction.writing then h.log ++ [l.calls] else h.log
  live := h.live.eraseIdx i

def discard (h : Handle) (i : Nat) : Handle := { h with live := h.live.eraseIdx i }

/-- What can come of a handle of the container `start`. A second writer has to wait. -/
inductive Run (writable : Bool) (start : Container) : Handle → Prop where
  | start : Run writable start ⟨start, [], []⟩
  | begin {h : Handle} {t : Transaction} (writing : Bool) :
      Run writable start h → (writing = true → ¬ h.hasWriter) →
        Transaction.begin? writable writing h.contents = .ok t → Run writable start (h.beginWith t)
  | call {h : Handle} {l : Live} (i : Nat) (call : Call) :
      Run writable start h → h.live[i]? = some l → Run writable start (h.call i l call)
  | commit {h : Handle} {l : Live} (i : Nat) :
      Run writable start h → h.live[i]? = some l → Run writable start (h.commit i l)
  | discard {h : Handle} {l : Live} (i : Nat) :
      Run writable start h → h.live[i]? = some l → Run writable start (h.discard i)

end Handle
end ChunkStore
