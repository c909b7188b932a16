import ChunkStore.Proofs.Transaction.Opening

namespace ChunkStore.Transaction

open Attempt

def Still (t u : Transaction) : Prop := t.writing = false → u = t

instance : Std.Refl Still := ⟨fun _ _ => rfl⟩

instance : Trans Still Still Still :=
  ⟨fun {t u v} h k ht => by
    obtain rfl : u = t := h ht
    exact k ht⟩

lemma still_openTable {κ ν : Type} [LT κ] (slot : Container.Slot κ ν) (action : Action) :
    Respects Still (openTable slot action) := fun t ht => by
  rw [openTable]
  split
  · rfl
  · rfl
  · simp [ht]

lemma opening_still : Opening Still where
  writer t ht := by simp [requireWriter, ht]
  metadata := still_openTable _
  descriptors := still_openTable _
  contents := still_openTable _
  chunks := still_openTable _

lemma still_setUp (entropy : Uuid) : Respects Still (Upgrade.setUp false entropy) :=
  opening_still.validate

end ChunkStore.Transaction
