import ChunkStore.Handle
import ChunkStore.Proofs.Transaction.Still
import ChunkStore.Proofs.Transaction.Tables

/-!
All that a call can tell is what there is to read in the tables. Selecting makes missing tables, but
it leaves what there is to read.
-/

namespace ChunkStore

open Attempt Transaction

inductive Table.Made {κ ν : Type} [LT κ] : Table κ ν → Table κ ν → Prop where
  | same (t : Table κ ν) : Made t t
  | made : Made .missing (.stored .empty)

lemma Table.Made.trans {κ ν : Type} [LT κ] {t u v : Table κ ν} (h : t.Made u) (k : u.Made v) :
    t.Made v := by
  cases h with
  | same => exact k
  | made =>
    cases k
    exact .made

lemma Table.Made.read {κ ν : Type} [LT κ] {t u : Table κ ν} (h : t.Made u) : t.read = u.read := by
  cases h with
  | same => rfl
  | made => rfl

namespace Container

structure Made (c d : Container) : Prop where
  metadata : c.metadata.Made d.metadata
  descriptors : c.descriptors.Made d.descriptors
  contents : c.contents.Made d.contents
  chunks : c.chunks.Made d.chunks
  others : c.others = d.others

instance : Std.Refl Made := ⟨fun _ => ⟨.same _, .same _, .same _, .same _, rfl⟩⟩

instance : Trans Made Made Made :=
  ⟨fun h k => ⟨h.metadata.trans k.metadata, h.descriptors.trans k.descriptors,
    h.contents.trans k.contents, h.chunks.trans k.chunks, h.others.trans k.others⟩⟩

def reads (c : Container) := (c.metadata.read, c.data)

lemma Made.reads {c d : Container} (h : c.Made d) : c.reads = d.reads := by
  simp only [Container.reads, data, ids, h.metadata.read, h.descriptors.read, h.contents.read,
    h.chunks.read]

class Slot.Proper {κ ν : Type} [LT κ] (slot : Slot κ ν) : Prop where
  read {c d : Container} : c.reads = d.reads → (slot.get c).read = (slot.get d).read
  put {c d : Container} (rows : Rows κ ν) :
    c.reads = d.reads → (slot.set (.stored rows) c).reads = (slot.set (.stored rows) d).reads
  make {c : Container} : slot.get c = .missing → c.Made (slot.set (.stored .empty) c)

instance : Slot.metadata.Proper where
  read h := (Prod.mk.inj h).1
  put _ h := Prod.ext rfl (Prod.mk.inj h).2
  make {c} h := by
    change c.metadata = .missing at h
    exact ⟨h ▸ .made, .same _, .same _, .same _, rfl⟩

instance : Slot.descriptors.Proper where
  read h := congrArg (fun r => r.2.1.1) h
  put rows h := congrArg (fun r => (r.1, (Except.ok rows, r.2.1.2), r.2.2)) h
  make {c} h := by
    change c.descriptors = .missing at h
    exact ⟨.same _, h ▸ .made, .same _, .same _, rfl⟩

instance : Slot.contents.Proper where
  read h := congrArg (fun r => r.2.1.2) h
  put rows h := congrArg (fun r => (r.1, (r.2.1.1, Except.ok rows), r.2.2)) h
  make {c} h := by
    change c.contents = .missing at h
    exact ⟨.same _, .same _, h ▸ .made, .same _, rfl⟩

instance : Slot.chunks.Proper where
  read h := congrArg (fun r => r.2.2) h
  put rows h := congrArg (fun r => (r.1, r.2.1, Except.ok rows)) h
  make {c} h := by
    change c.chunks = .missing at h
    exact ⟨.same _, .same _, .same _, h ▸ .made, rfl⟩

end Container

namespace Transaction

variable {κ ν α : Type} [LT κ]

abbrev Makes : Transaction → Transaction → Prop := InvImage Container.Made Transaction.view

abbrev SameReads : Transaction → Transaction → Prop := InvImage Eq fun t => t.view.reads

lemma makes_openTable (slot : Container.Slot κ ν) [slot.Proper] (action : Action) :
    Respects Makes (openTable slot action) := fun t => by
  rw [openTable]
  split
  · exact Std.Refl.refl (r := Makes) t
  · exact Std.Refl.refl (r := Makes) t
  next h =>
    split
    · exact Container.Slot.Proper.make h
    · exact Std.Refl.refl (r := Makes) t

lemma opening_makes : Opening Makes where
  writer t := by
    rw [requireWriter]
    split <;> exact Std.Refl.refl (r := Makes) t
  metadata := makes_openTable _
  descriptors := makes_openTable _
  contents := makes_openTable _
  chunks := makes_openTable _

lemma outcome_openTable (slot : Container.Slot κ ν) (action : Action) (t : Transaction) :
    outcome (openTable slot action t) = (slot.get t.view).read.mapError fun types =>
      .file action (.tableTypes slot.name.text types.key types.value) := by
  rw [openTable]
  cases slot.get t.view with
  | missing => rfl
  | foreign types => rfl
  | stored rows => rfl

lemma congruent_openTable (slot : Container.Slot κ ν) [hs : slot.Proper] (action : Action) :
    Congruent SameReads (openTable slot action) := fun t u h => by
  refine ⟨?_, ?_⟩
  · rw [outcome_openTable, outcome_openTable, hs.read h]
  · have ht := (makes_openTable slot action t).reads
    have hu := (makes_openTable slot action u).reads
    exact ht.symm.trans (Eq.trans h hu)

lemma congruent_selectMeta (key : String) : Congruent SameReads (selectMeta key) :=
  (congruent_openTable _ _).bind fun _ => congruent_pure _

/-- A writer that finds no metadata looks no further. Who does look finds nothing. -/
lemma outcome_selectVersion (t : Transaction) :
    outcome (selectVersion t) = outcome ((versionOf <$> selectMeta ReservedKey.version.text) t) := by
  rw [selectVersion]
  split
  next hm =>
    obtain ⟨-, hm⟩ : t.writing = true ∧ t.view.metadata = .missing := by simpa using hm
    have hread : (Container.Slot.metadata.get t.view).read = .ok .empty := by
      change t.view.metadata.read = _
      rw [hm, Table.read]
    obtain ⟨u, hu⟩ := openTable_ok hread .selectMeta
    rw [outcome_map, selectMeta, bind_ok hu]
    rfl
  · rfl

lemma congruent_selectVersion : Congruent SameReads selectVersion := fun t u h => by
  refine ⟨?_, ?_⟩
  · rw [outcome_selectVersion, outcome_selectVersion]
    exact ((congruent_selectMeta _).map _ t u h).1
  · have ht := (opening_makes.selectVersion t).reads
    have hu := (opening_makes.selectVersion u).reads
    exact ht.symm.trans (Eq.trans h hu)

lemma congruent_select {call : Call} (h : call.isWriting = false) :
    Congruent SameReads call.run := by
  cases call with
  | selectMeta key => exact (congruent_selectMeta key).map _
  | selectVersion => exact congruent_selectVersion.map _
  | selectDescriptor id => exact ((congruent_openTable _ _).bind fun _ => congruent_pure _).map _
  | selectChunk timestamp => exact ((congruent_openTable _ _).bind fun _ => congruent_pure _).map _
  | selectChunks first last =>
    apply Congruent.map
    rw [selectChunks]
    split
    · exact congruent_pure _
    · exact (congruent_openTable _ _).bind fun _ => congruent_pure _
  | selectMaxTimestamp =>
    apply ((congruent_openTable _ _).bind _).map
    intro rows
    split
    · exact congruent_pure _
    · exact congruent_pure _
  | insertMeta _ _ => cases h
  | migrate _ => cases h
  | insertDescriptor _ => cases h
  | insertChunk _ _ => cases h

lemma Opening.select {R : Transaction → Transaction → Prop} [Std.Refl R] [Trans R R R]
    (hR : Opening R) {call : Call} (h : call.isWriting = false) : Respects R call.run := by
  cases call with
  | selectMeta key => exact (hR.selectMeta key).map _
  | selectVersion => exact hR.selectVersion.map _
  | selectDescriptor id => exact (hR.selectDescriptor id).map _
  | selectChunk timestamp => exact (hR.selectChunk timestamp).map _
  | selectChunks first last => exact (hR.selectChunks first last).map _
  | selectMaxTimestamp => exact hR.selectMaxTimestamp.map _
  | insertMeta _ _ => cases h
  | migrate _ => cases h
  | insertDescriptor _ => cases h
  | insertChunk _ _ => cases h

lemma mode_call (call : Call) : Respects SameMode call.run := by
  by_cases h : call.isWriting = false
  · exact opening_mode.select h
  cases call with
  | insertMeta key value => exact (mode_insertMeta key value).map _
  | migrate step => exact (opening_mode.migrate step).map _
  | insertDescriptor bytes => exact (mode_insertDescriptor bytes).map _
  | insertChunk timestamp row => exact (mode_insertChunk timestamp row).map _
  | _ => exact absurd rfl h

def Twin (t u : Transaction) : Prop := SameMode t u ∧ SameReads t u

lemma twin_of_reads {x : Attempt Transaction α} (hx : Congruent SameReads x)
    (hm : Respects SameMode x) : Congruent Twin x := fun t u h => by
  obtain ⟨ho, hr⟩ := hx t u h.2
  have hw : t.writing = u.writing := h.1
  exact ⟨ho, (hm t).symm.trans (hw.trans (hm u)), hr⟩

lemma twin_openTable (slot : Container.Slot κ ν) [slot.Proper] (action : Action) :
    Congruent Twin (openTable slot action) :=
  twin_of_reads (congruent_openTable slot action) (mode_openTable slot action)

lemma twin_putRows (slot : Container.Slot κ ν) [hs : slot.Proper] (rows : Rows κ ν) :
    Congruent Twin (putRows slot rows) := fun _ _ h => agree_ok _ ⟨h.1, hs.put rows h.2⟩

lemma twin_requireWriter : Congruent Twin requireWriter := fun t u h => by
  have hw : t.writing = u.writing := h.1
  rw [requireWriter, requireWriter, hw]
  split
  · exact agree_ok _ h
  · exact agree_error _ h

lemma twin_createTables (names : List TableName) : Congruent Twin (createTables names) := by
  induction names with
  | nil => exact congruent_pure _
  | cons name names ih =>
    apply Congruent.bind _ fun _ => ih
    cases name with
    | metadata => exact (twin_openTable _ _).map _
    | descriptors => exact (twin_openTable _ _).map _
    | contents => exact (twin_openTable _ _).map _
    | chunks => exact (twin_openTable _ _).map _

lemma twin_addDescriptor (ids : Rows Bytes UInt64) (bytes : Bytes) :
    Congruent Twin (addDescriptor ids bytes) :=
  (twin_openTable _ _).bind fun _ t u h => Agree.checked
    (((twin_putRows _ _).bind fun _ => (twin_putRows _ _).bind fun _ => congruent_pure _) t u h) h _ _

lemma twin_insertDescriptor (bytes : Bytes) : Congruent Twin (insertDescriptor bytes) := by
  refine twin_requireWriter.bind fun _ => (twin_openTable _ _).bind fun ids => ?_
  split
  · exact congruent_pure _
  · exact twin_addDescriptor ids bytes

lemma twin_call (call : Call) : Congruent Twin call.run := by
  by_cases h : call.isWriting = false
  · exact twin_of_reads (congruent_select h) (mode_call call)
  cases call with
  | insertMeta key value =>
    exact (twin_requireWriter.bind fun _ => (twin_openTable _ _).bind fun _ => twin_putRows _ _).map _
  | migrate step => exact (twin_requireWriter.bind fun _ => twin_createTables _).map _
  | insertDescriptor bytes => exact (twin_insertDescriptor bytes).map _
  | insertChunk timestamp row =>
    exact (twin_requireWriter.bind fun _ => (twin_openTable _ _).bind fun _ => twin_putRows _ _).map _
  | _ => exact absurd rfl h

lemma run_reader {call : Call} {t : Transaction} (h : call.isWriting = true)
    (ht : t.writing = false) : call.run t = .error .notWritable t := by
  have hw : requireWriter t = .error .notWritable t := by simp [requireWriter, ht]
  cases call with
  | insertMeta key value => exact map_error (bind_error hw _) _
  | migrate step => exact map_error (bind_error hw _) _
  | insertDescriptor bytes => exact map_error (bind_error hw _) _
  | insertChunk timestamp row => exact map_error (bind_error hw _) _
  | _ => cases h

lemma state_selectVersion (t : Transaction) : state (selectVersion t) = t := by
  rw [selectVersion]
  split
  · rfl
  next hm =>
    rw [state_map, selectMeta]
    obtain ⟨e, he⟩ | ⟨u, hu⟩ := openTable_cases .metadata .selectMeta t
    · rw [bind_error he, state_error]
    · rw [bind_ok hu, pure_run, state_ok]
      by_cases hw : t.writing = true
      · have hne : t.view.metadata ≠ .missing := fun h => hm (by simp [hw, h])
        exact (openTable_inv hu).2 hne
      · exact (still_openTable _ _).of_ok hu (by simpa using hw)

lemma runAll_concat (calls : List Call) (call : Call) (t : Transaction) :
    runAll (calls ++ [call]) t = state (call.run (runAll calls t)) := by
  simp [runAll]

lemma respects_runAll {R : Transaction → Transaction → Prop} [Std.Refl R] [Trans R R R]
    (h : ∀ call : Call, Respects R call.run) (calls : List Call) (t : Transaction) :
    R t (runAll calls t) := by
  induction calls generalizing t with
  | nil => exact Std.Refl.refl t
  | cons call calls ih => exact Trans.trans (h call t) (ih _)

lemma mode_runAll (calls : List Call) (t : Transaction) : SameMode t (runAll calls t) :=
  respects_runAll mode_call calls t

lemma respects_call {R : Container → Container → Prop} (hids : ∀ {c d}, c.ids = d.ids → R c d)
    (hinsert : ∀ bytes, Respects (InvImage R view) (insertDescriptor bytes)) (call : Call) :
    Respects (InvImage R view) call.run := by
  have hsame {α : Type} {x : Attempt Transaction α} (hx : Respects SameIds x) :
      Respects (InvImage R view) x := fun t => hids (hx t)
  by_cases h : call.isWriting = false
  · exact hsame (opening_ids.select h)
  cases call with
  | insertMeta key value => exact hsame ((respects_ids (data_insertMeta key value)).map _)
  | migrate step => exact hsame ((opening_ids.migrate step).map _)
  | insertDescriptor bytes => exact (hinsert bytes).map _
  | insertChunk timestamp row => exact hsame ((ids_insertChunk timestamp row).map _)
  | _ => exact absurd rfl h

lemma twin_runAll (calls : List Call) {t u : Transaction} (h : Twin t u) :
    Twin (runAll calls t) (runAll calls u) := by
  induction calls generalizing t u with
  | nil => exact h
  | cons call calls ih => exact ih (twin_call call t u h).2

end Transaction
end ChunkStore
