import ChunkStore.Uuid

namespace ChunkStore

structure StoreId where
  uuid : Uuid
  deriving DecidableEq

namespace StoreId

inductive Flaw where
  | absent
  | malformed (text : String) (flaw : Uuid.Flaw)
  | notRandom (text : String)
  | described (text : String)
  deriving DecidableEq, Repr

def read (s : String) : Except Flaw StoreId :=
  match Uuid.read s.toList with
  | .error flaw => .error (.malformed s flaw)
  | .ok u => if u.version = 4 then .ok ⟨u⟩ else .error (.notRandom s)

def text (id : StoreId) : String := String.ofList id.uuid.hyphenated

def label (id : StoreId) : String := "StoreId(" ++ id.text ++ ")"

def fresh (entropy : Uuid) : StoreId := ⟨entropy.asRandom⟩

end StoreId
end ChunkStore
