import ChunkStore.Proofs.Attempt
import ChunkStore.Upgrade

namespace ChunkStore.Transaction

open Attempt

structure Opening (R : Transaction → Transaction → Prop) : Prop where
  writer : Respects R requireWriter
  metadata (action : Action) : Respects R (openTable .metadata action)
  descriptors (action : Action) : Respects R (openTable .descriptors action)
  contents (action : Action) : Respects R (openTable .contents action)
  chunks (action : Action) : Respects R (openTable .chunks action)

namespace Opening

variable {R : Transaction → Transaction → Prop} [Std.Refl R] [Trans R R R] (h : Opening R)

include h

lemma selectMeta (key : String) : Respects R (Transaction.selectMeta key) :=
  (h.metadata _).bind fun _ => respects_pure _

lemma selectVersion : Respects R Transaction.selectVersion := fun t => by
  rw [Transaction.selectVersion]
  split
  · exact Std.Refl.refl t
  · exact (h.selectMeta _).map _ t

lemma selectDescriptor (id : UInt64) : Respects R (Transaction.selectDescriptor id) :=
  (h.descriptors _).bind fun _ => respects_pure _

lemma selectChunk (timestamp : Int64) : Respects R (Transaction.selectChunk timestamp) :=
  (h.chunks _).bind fun _ => respects_pure _

lemma selectChunks (first last : Int64) : Respects R (Transaction.selectChunks first last) := by
  rw [Transaction.selectChunks]
  split
  · exact respects_pure _
  · exact (h.chunks _).bind fun _ => respects_pure _

lemma selectMaxTimestamp : Respects R Transaction.selectMaxTimestamp := by
  apply (h.chunks _).bind
  intro rows
  split
  · exact respects_pure _
  · exact respects_pure _

lemma createTables (names : List TableName) : Respects R (Transaction.createTables names) := by
  induction names with
  | nil => exact respects_pure _
  | cons name names ih =>
    apply Respects.bind _ fun _ => ih
    cases name with
    | metadata => exact (h.metadata _).map _
    | descriptors => exact (h.descriptors _).map _
    | contents => exact (h.contents _).map _
    | chunks => exact (h.chunks _).map _

lemma migrate (step : SchemaStep) : Respects R (Transaction.migrate step) :=
  h.writer.bind fun _ => h.createTables _

omit [Std.Refl R] in
lemma insertMeta (hput : ∀ rows, Respects R (putRows .metadata rows)) (key value : String) :
    Respects R (Transaction.insertMeta key value) :=
  h.writer.bind fun _ => (h.metadata _).bind fun _ => hput _

lemma addDescriptor (hd : ∀ rows, Respects R (putRows .descriptors rows))
    (hc : ∀ rows, Respects R (putRows .contents rows)) (ids : Rows Bytes UInt64) (bytes : Bytes) :
    Respects R (Transaction.addDescriptor ids bytes) := by
  refine (h.descriptors _).bind fun rows => Respects.checked ?_ _ _
  exact (hd _).bind fun _ => (hc _).bind fun _ => respects_pure _

lemma insertDescriptor (hd : ∀ rows, Respects R (putRows .descriptors rows))
    (hc : ∀ rows, Respects R (putRows .contents rows)) (bytes : Bytes) :
    Respects R (Transaction.insertDescriptor bytes) := by
  refine h.writer.bind fun _ => (h.contents _).bind fun ids => ?_
  split
  · exact respects_pure _
  · exact h.addDescriptor hd hc ids bytes

omit [Std.Refl R] in
lemma insertChunk (hput : ∀ rows, Respects R (putRows .chunks rows)) (timestamp : Int64)
    (row : ChunkRow) : Respects R (Transaction.insertChunk timestamp row) :=
  h.writer.bind fun _ => (h.chunks _).bind fun _ => hput _

lemma validate : Respects R Upgrade.validate := by
  apply h.selectVersion.bind
  intro version
  apply Respects.checked
  exact (h.selectMeta _).bind fun _ => (respects_ofExcept _).bind fun _ => respects_pure _

section

variable (hput : ∀ key value, Respects R (Transaction.insertMeta key value))

include hput

lemma insertEpoch (epoch : Int64) : Respects R (Transaction.insertEpoch epoch) := by
  apply (h.selectMeta _).bind
  intro text
  split
  · exact respects_throw _
  · exact hput _ _

lemma applySteps (version : Int32) (steps : List SchemaStep) :
    Respects R (Upgrade.applySteps version steps) := by
  induction steps generalizing version with
  | nil => exact respects_pure _
  | cons step steps ih =>
    intro t
    have hstep := (h.migrate step).bind fun _ => hput ReservedKey.version.text
      (Decimal.ofInt (version + 1).toInt)
    simp only [Upgrade.applySteps]
    split
    next htaken => exact Trans.trans (r := R) (hstep.of_ok htaken) (ih _ _)
    next htaken => exact hstep.of_error htaken

lemma upgrade (entropy : Uuid) : Respects R (Upgrade.upgrade entropy) := by
  refine h.selectVersion.bind fun found => (h.applySteps hput _ _).bind fun version =>
    (h.selectMeta _).bind fun text => ?_
  split
  · exact (hput _ _).bind fun _ => respects_pure _
  · exact (respects_ofExcept _).bind fun _ => respects_pure _

lemma setUp (writable : Bool) (entropy : Uuid) : Respects R (Upgrade.setUp writable entropy) := by
  rw [Upgrade.setUp]
  split
  · exact h.upgrade hput entropy
  · exact h.validate

end

end Opening
end ChunkStore.Transaction
