import ChunkStore.Attempt
import ChunkStore.Config
import ChunkStore.Container.Basic

/-!
What is found where a container is looked for, and who may open it: a container has one user at a
time, and a writer makes one where nothing is.
-/

namespace ChunkStore

inductive File where
  | missing
  | raw (bytes : Bytes)
  | container (held : Bool) (contents : Container)
  | unreachable (fault : FileFault)
  deriving DecidableEq

namespace File

def container? : File → Option Container
  | container _ c => some c
  | missing | raw _ | unreachable _ => none

def inside (f : File) : Container := f.container?.getD .empty

def contents? (writable : Bool) : File → Except FileFault Container
  | container false c => .ok c
  | missing => if writable then .ok Container.empty else .error .unavailable
  | raw bytes => if writable ∧ bytes = [] then .ok Container.empty else .error .unavailable
  | container true _ => .error .unavailable
  | unreachable fault => .error fault

def acquire (path : String) (writable : Bool) (config : StoreConfig) : Attempt File Container :=
  fun f =>
    match config.validate with
    | .error e => .error e f
    | .ok _ =>
      match f.contents? writable with
      | .ok c => .ok c (.container true c)
      | .error fault => .error (.file (.openFile path) fault) f

def release : File → File
  | container _ c => container false c
  | f => f

end File
end ChunkStore
