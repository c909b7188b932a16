import ChunkStore.File
import ChunkStore.Path

/-!
A tree of directories and files in memory, in which containers are looked for by path. A path is
followed name by name, and every name but the last must be that of a directory.
-/

namespace ChunkStore

namespace Volume

inductive Node where
  | directory
  | file (f : File)

abbrev Place := List String

end Volume

structure Volume where
  nodes : List (Volume.Place × Volume.Node)

namespace Volume

def empty : Volume := ⟨[]⟩

def node? (v : Volume) (place : Place) : Option Node :=
  if place = [] then some .directory else (v.nodes.find? fun n => n.1 = place).map Prod.snd

def isDirectory (v : Volume) (place : Place) : Bool :=
  match v.node? place with
  | some .directory => true
  | _ => false

def step? (here : Place) (name : String) : Option Place :=
  if name = ".." then some here.dropLast
  else if Path.isAllowedName name then some (here ++ [name])
  else none

def walk? (v : Volume) (here : Place) : List String → Option Place
  | [] => some here
  | name :: names => do
    let next ← step? here name
    if v.isDirectory next then v.walk? next names else none

def place? (v : Volume) (path : String) : Option Place :=
  if Path.isAllowed path then
    match (Path.names path).getLast? with
    | none => some []
    | some last => do step? (← v.walk? [] (Path.names path).dropLast) last
  else none

def exists? (v : Volume) (path : String) : Bool :=
  match (v.place? path).bind v.node? with
  | some .directory => true
  | some (.file _) => !Path.endsInDirectory path
  | none => false

def find (v : Volume) (path : String) : File :=
  match (v.place? path).map v.node?, Path.endsInDirectory path with
  | some (some (.file f)), false => f
  | some none, false => .missing
  | _, _ => .unreachable .unavailable

def insertNode (v : Volume) (place : Place) (n : Node) : Volume :=
  ⟨(place, n) :: v.nodes.filter fun m => m.1 ≠ place⟩

def makeDirectories (v : Volume) (here : Place) : List String → Volume × Bool
  | [] => (v, true)
  | name :: names =>
    match step? here name with
    | none => (v, false)
    | some next =>
      match v.node? next with
      | some .directory => v.makeDirectories next names
      | some (.file _) => (v, false)
      | none => (v.insertNode next .directory).makeDirectories next names

def makeDirectory (v : Volume) (path : String) : Volume × Bool :=
  if Path.isAllowed path then v.makeDirectories [] (Path.names path) else (v, false)

def makeParents (v : Volume) (path : String) : Volume × Bool := v.makeDirectory (Path.parent path)

/-- What is found at a path by one who makes the directories above it first, or does not. What was
made stays, also if it was to no avail. -/
def reach (v : Volume) (path : String) (parents : Bool) : Volume × File :=
  if parents then
    let (v, made) := v.makeParents path
    (v, if made then v.find path else .unreachable .noParents)
  else (v, v.find path)

def save (v : Volume) (path : String) (f : File) : Volume :=
  match f, v.place? path with
  | .missing, _ | .unreachable _, _ | _, none => v
  | f, some place => v.insertNode place (.file f)

end Volume
end ChunkStore
