namespace ChunkStore

inductive ReservedKey where
  | id
  | epoch
  | version
  deriving DecidableEq, Repr

namespace ReservedKey

def all : List ReservedKey := [id, epoch, version]

def text : ReservedKey → String
  | id => "ID"
  | epoch => "EPOCH_MICROS"
  | version => "VERSION"

def isReserved (key : String) : Bool := all.any fun k => k.text = key

theorem isReserved_iff {key : String} : isReserved key = true ↔ ∃ k : ReservedKey, k.text = key := by
  constructor
  · intro h
    obtain ⟨k, -, hk⟩ := List.any_eq_true.1 h
    exact ⟨k, by simpa using hk⟩
  · rintro ⟨k, rfl⟩
    cases k <;> simp [isReserved, all]

end ReservedKey
end ChunkStore
