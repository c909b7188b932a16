import ChunkStore.Store.History

/-!
A store with its fields apart. Opening and closing set each of them at a point of its own, so that
it has to be shown that they fit each other.
-/

namespace ChunkStore

inductive StoreState where
  | initial
  | openReadOnly
  | openReadWrite
  | closed
  deriving DecidableEq, Repr

namespace StoreState

def opened (writable : Bool) : StoreState := if writable then openReadWrite else openReadOnly

def isOpen : StoreState → Bool
  | openReadOnly | openReadWrite => true
  | initial | closed => false

def name : StoreState → String
  | initial => "Initial"
  | openReadOnly => "OpenReadOnly"
  | openReadWrite => "OpenReadWrite"
  | closed => "Closed"

def next (state : StoreState) (op : Operation) (ok : Bool) : StoreState :=
  match state, op with
  | initial, .openFile writable _ => if ok then opened writable else closed
  | _, .close => closed
  | state, _ => state

end StoreState

structure FlatStore where
  path : String
  config : StoreConfig
  state : StoreState
  holds : Bool
  id : Option StoreId
  version : Int32
  cache : Cache
  recent : Option Descriptor

def History.OpensOnce (h : History) : Prop :=
  ∀ {late early : History} {writable entropy a},
    h = late ++ ⟨.openFile writable entropy, .ok a⟩ :: early →
      ∀ e ∈ early, ∀ writable entropy, e.operation ≠ .openFile writable entropy

namespace FlatStore

def create (path : String) (config : StoreConfig) : FlatStore where
  path := path
  config := config
  state := .initial
  holds := false
  id := none
  version := 0
  cache := .empty config.descriptorCacheCapacity
  recent := none

def id? (s : FlatStore) : Option StoreId := if s.state.isOpen then s.id else none

def session (s : FlatStore) (writing : Bool) : Except Error Session :=
  match s.state, writing with
  | .initial, _ | .closed, _ => .error .storeClosed
  | .openReadOnly, true => .error .notWritable
  | state, _ =>
    match s.holds, s.id with
    | true, some id => .ok ⟨state = .openReadWrite, id, s.cache, s.recent⟩
    | _, _ => .error .storeClosed

def close (s : FlatStore) (f : File) : FlatStore × File :=
  if s.state.isOpen then
    let f := if s.holds then f.release else f
    ({ s with recent := none, cache := s.cache.clear, holds := false, state := .closed }, f)
  else ({ s with state := .closed }, f)

def openFile (writable : Bool) (entropy : Uuid) : Attempt (FlatStore × File) Unit := fun (s, f) =>
  if s.state = .initial then
    match File.acquire s.path writable s.config f with
    | .error e f => .error e ({ s with state := .closed }, f)
    | .ok c _ =>
      let opened := { s with holds := true, state := .opened writable }
      match transact writable (inTransaction (Upgrade.setUp writable entropy)) ((), c) with
      -- it was open for a moment
      | .error e (_, c) => .error e (opened.close (.container true c))
      | .ok (version, id) (_, c) => .ok () ({ opened with version, id := some id }, .container true c)
  else .error .alreadyOpened (s, f)

def ask (r : Request) : Attempt (FlatStore × Container) Answer := fun (s, c) =>
  match s.session r.isWriting with
  | .error e => .error e (s, c)
  | .ok session =>
    let put := fun (u : Session × Container) => ({ s with cache := u.1.cache, recent := u.1.recent }, u.2)
    match r.serve (session, c) with
    | .ok a u => .ok a (put u)
    | .error e u => .error e (put u)

def descriptorBuilder (s : FlatStore) : Except Error DescriptorBuilder :=
  match s.id? with
  | some id => .ok (.empty (some id))
  | none => .error .storeClosed

def chunkBuilder (s : FlatStore) (d : Descriptor) : Except Error ChunkBuilder :=
  match s.id? with
  | some id => .ok (.empty (d.forStore id))
  | none => .error .storeClosed

def run : Operation → Attempt (FlatStore × File) Answer
  | .openFile writable entropy => (fun _ => .done) <$> openFile writable entropy
  | .close => fun (s, f) => .ok .done (s.close f)
  | .ask r => Store.onFile (ask r)

def phase (s : FlatStore) : Phase :=
  match s.state, s.id with
  | .initial, _ => .initial
  | .openReadOnly, some id => .opened ⟨false, id, s.cache, s.recent⟩
  | .openReadWrite, some id => .opened ⟨true, id, s.cache, s.recent⟩
  | _, _ => .closed

def toStore (s : FlatStore) : Store := ⟨s.path, s.config, s.phase, s.version⟩

end FlatStore

/-- What can come of the store `new` that is asked for anything, one operation after the other. While
it is `free`, anything can happen to its file. -/
inductive Lifetime {σ : Type} (run : Operation → Attempt (σ × File) Answer) (free : σ → Prop)
    (new : σ) : σ → File → History → Prop where
  | start (f : File) : Lifetime run free new new f []
  | meanwhile {s : σ} {f : File} {h : History} (g : File) :
      Lifetime run free new s f h → free s → Lifetime run free new s g h
  | call {s : σ} {f : File} {h : History} (op : Operation) : Lifetime run free new s f h →
      Lifetime run free new (Attempt.state (run op (s, f))).1 (Attempt.state (run op (s, f))).2
        (⟨op, Attempt.outcome (run op (s, f))⟩ :: h)

def Store.Lives (path : String) (config : StoreConfig) : Store → File → History → Prop :=
  Lifetime Operation.run (fun s => s.session? = none) (.create path config)

def FlatStore.Lives (path : String) (config : StoreConfig) : FlatStore → File → History → Prop :=
  Lifetime run (fun s => s.holds = false) (.create path config)

end ChunkStore
