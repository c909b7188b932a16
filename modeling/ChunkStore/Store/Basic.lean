import ChunkStore.File
import ChunkStore.Store.Session
import ChunkStore.Upgrade

/-!
A store works on the container at one path. It is opened once, to read or to write, and then closed.
-/

namespace ChunkStore

inductive Phase where
  | initial
  | opened (session : Session)
  | closed

structure Store where
  path : String
  config : StoreConfig
  phase : Phase
  version : Int32

namespace Store

def create (path : String) (config : StoreConfig) : Store := ⟨path, config, .initial, 0⟩

def session? (s : Store) : Option Session :=
  match s.phase with
  | .opened session => some session
  | .initial | .closed => none

def id? (s : Store) : Option StoreId := s.session?.map Session.id

def isWritable (s : Store) : Bool := s.session?.any Session.writable

def phaseName (s : Store) : String :=
  match s.phase with
  | .initial => "Initial"
  | .opened session => if session.writable then "OpenReadWrite" else "OpenReadOnly"
  | .closed => "Closed"

def summary (s : Store) : String :=
  "Store \x7b path: " ++ Quoted.quote s.path ++ ", state: " ++ s.phaseName ++ ", .. \x7d"

/-- Opens a store that was not opened before. A writer makes the container if needed and brings it up
to date. A store that could not be opened is closed. -/
def openFile (writable : Bool) (entropy : Uuid) : Attempt (Store × File) Unit := fun (s, f) =>
  match s.phase with
  | .opened _ | .closed => .error .alreadyOpened (s, f)
  | .initial =>
    let closed := { s with phase := .closed }
    match File.acquire s.path writable s.config f with
    | .error e f => .error e (closed, f)
    | .ok c _ =>
      match transact writable (inTransaction (Upgrade.setUp writable entropy)) ((), c) with
      | .error e (_, c) => .error e (closed, .container false c)
      | .ok (version, id) (_, c) =>
        let session := Session.start writable id s.config.descriptorCacheCapacity
        .ok () ({ s with phase := .opened session, version }, .container true c)

def makesParents (s : Store) (writable : Bool) : Bool :=
  match s.phase with
  | .initial => s.config.makesParents writable
  | .opened _ | .closed => false

def close (s : Store) (f : File) : Store × File :=
  match s.phase with
  | .opened _ => ({ s with phase := .closed }, f.release)
  | .initial | .closed => ({ s with phase := .closed }, f)

def inSession {α : Type} (writing : Bool) (op : Attempt (Session × Container) α) :
    Attempt (Store × Container) α := fun (s, c) =>
  match s.phase with
  | .initial | .closed => .error .storeClosed (s, c)
  | .opened session =>
    if writing && !session.writable then .error .notWritable (s, c)
    else
      let put := fun (r : Session × Container) => ({ s with phase := .opened r.1 }, r.2)
      match op (session, c) with
      | .ok a r => .ok a (put r)
      | .error e r => .error e (put r)

def put (chunk : Chunk) : Attempt (Store × Container) Unit := inSession true (Session.put chunk)

def find? (timestamp : Int64) : Attempt (Store × Container) (Option Chunk) :=
  inSession false (Session.find? timestamp)

def findBetween (first last : Int64) : Attempt (Store × Container) (List Chunk) :=
  inSession false (Session.findBetween first last)

def maxTimestamp : Attempt (Store × Container) Int64 := inSession false Session.maxTimestamp

def epoch : Attempt (Store × Container) Int64 := inSession false Session.epoch

def setEpoch (epoch : Int64) : Attempt (Store × Container) Unit :=
  inSession true (Session.setEpoch epoch)

def metadata? (key : String) : Attempt (Store × Container) (Option String) :=
  inSession false (Session.metadata? key)

def putMetadata (key value : String) : Attempt (Store × Container) Unit :=
  inSession true (Session.putMetadata key value)

def descriptorBuilder (s : Store) : Except Error DescriptorBuilder :=
  match s.id? with
  | some id => .ok (.empty (some id))
  | none => .error .storeClosed

def chunkBuilder (s : Store) (d : Descriptor) : Except Error ChunkBuilder :=
  match s.id? with
  | some id => .ok (.empty (d.forStore id))
  | none => .error .storeClosed

/-- Runs an operation on the container in the store's file. A store whose file holds none is not
open. -/
def onFile {μ α : Type} (op : Attempt (μ × Container) α) : Attempt (μ × File) α := fun (s, f) =>
  match f with
  | .container held c =>
    match op (s, c) with
    | .ok a (s, c) => .ok a (s, .container held c)
    | .error e (s, c) => .error e (s, .container held c)
  | f =>
    match op (s, Container.empty) with
    | .ok a (s, _) => .ok a (s, f)
    | .error e (s, _) => .error e (s, f)

end Store
end ChunkStore
