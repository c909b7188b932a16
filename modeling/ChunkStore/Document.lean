import ChunkStore.Encoding
import ChunkStore.StoreId

/-!
Trees of settings, whatever notation they were written in. Records are read by the names of their
members, or by position from a list; members that are left out have defaults, and unknown ones do
not matter.
-/

namespace ChunkStore

inductive Document where
  | null
  | boolean (value : Bool)
  | integer (value : Int)
  | decimal (digits : String)
  | date (digits : String)
  | text (value : String)
  | list (items : List Document)
  | table (entries : List (String × Document))
  deriving Repr

namespace Document

def boolean? : Document → Option Bool
  | boolean value => some value
  | _ => none

def text? : Document → Option String
  | text value => some value
  | _ => none

def size? : Document → Option Nat
  | integer (.ofNat n) => if n < 18446744073709551616 then some n else none
  | _ => none

def lookup? (entries : List (String × Document)) (name : String) : Option Document :=
  (entries.find? fun e => e.1 = name).map Prod.snd

/-- The members of a record in the order of `names`. A date is a record with none of them, and a
list may have more items unless reading is `strict`. -/
def members? (strict : Bool) (names : List String) : Document → Option (List (Option Document))
  | table entries => some (names.map (lookup? entries))
  | date _ => some (names.map fun _ => none)
  | list items =>
    if strict && names.length < items.length then none
    else some ((List.range names.length).map fun i => items[i]?)
  | _ => none

def member? {α : Type} (read : Document → Option α) (default : α) : Option Document → Option α
  | none => some default
  | some d => read d

end Document

def Encoding.ofDocument? : Document → Option Encoding
  | .text s => Encoding.all.find? fun e => e.symbol = s
  | .table [(s, .null)] => Encoding.all.find? fun e => e.symbol = s
  | _ => none

def StoreId.ofDocument? : Document → Option StoreId
  | .text s =>
    match Uuid.read s.toList with
    | .ok u => some ⟨u⟩
    | .error _ => none
  | _ => none

end ChunkStore
