/-!
Paths of files: names between slashes. Empty names and single dots say nothing, two dots lead to the
directory above.
-/

namespace ChunkStore.Path

def names (path : String) : List String := (path.splitOn "/").filter fun n => n ≠ "" ∧ n ≠ "."

def trim : List Char → List Char
  | '/' :: cs => trim cs
  | '.' :: '/' :: cs => trim cs
  | cs => cs

def parent (path : String) : String :=
  String.ofList (trim ((trim path.toList.reverse).dropWhile (· ≠ '/'))).reverse

def endsInDirectory (path : String) : Bool :=
  ["", ".", ".."].contains ((path.splitOn "/").getLast?.getD "")

/-- Whether the system takes a path: it has at most 4095 bytes, none of them zero. -/
def isAllowed (path : String) : Bool := path.utf8ByteSize ≤ 4095 && !path.toList.contains '\x00'

def isAllowedName (name : String) : Bool := name.utf8ByteSize ≤ 255

end ChunkStore.Path
