import ChunkStore.Error

/-!
Computations that change a state and may fail. What was changed before a failure stays changed.
-/

namespace ChunkStore

abbrev Attempt (σ α : Type) := EStateM Error σ α

namespace Attempt

variable {σ τ α : Type}

def ofExcept (r : Except Error α) : Attempt σ α := fun s =>
  match r with
  | .ok a => .ok a s
  | .error e => .error e s

def within (get : σ → τ) (set : τ → σ → σ) (x : Attempt τ α) : Attempt σ α := fun s =>
  match x (get s) with
  | .ok a t => .ok a (set t s)
  | .error e t => .error e (set t s)

def outcome : EStateM.Result Error σ α → Except Error α
  | .ok a _ => .ok a
  | .error e _ => .error e

def state : EStateM.Result Error σ α → σ
  | .ok _ s => s
  | .error _ s => s

end Attempt
end ChunkStore
