import ChunkStore.Proofs.Container
import ChunkStore.Proofs.Transaction.Opening

namespace ChunkStore.Transaction

open Attempt

variable {κ ν α : Type} [LT κ]

lemma openTable_ok {slot : Container.Slot κ ν} {t : Transaction} {rows : Rows κ ν}
    (h : (slot.get t.view).read = .ok rows) (action : Action) :
    ∃ u, openTable slot action t = .ok rows u := by
  rw [openTable]
  cases hs : slot.get t.view with
  | missing =>
    obtain rfl : Rows.empty = rows := by simpa [hs, Table.read] using h
    exact ⟨_, rfl⟩
  | foreign types => simp [hs, Table.read] at h
  | stored r =>
    obtain rfl : r = rows := by simpa [hs, Table.read] using h
    exact ⟨_, rfl⟩

lemma openTable_stored (slot : Container.Slot κ ν) {t : Transaction} {rows : Rows κ ν}
    (h : slot.get t.view = .stored rows) (action : Action) :
    openTable slot action t = .ok rows t := by
  simp only [openTable, h]

lemma openTable_cases (slot : Container.Slot κ ν) (action : Action) (t : Transaction) :
    (∃ e, openTable slot action t = .error e t) ∨
      ∃ u, openTable slot action t = .ok (slot.get t.view).rows u := by
  rw [openTable]
  cases slot.get t.view with
  | missing => exact .inr ⟨_, rfl⟩
  | foreign types => exact .inl ⟨_, rfl⟩
  | stored rows => exact .inr ⟨_, rfl⟩

lemma openTable_inv {slot : Container.Slot κ ν} {action : Action} {rows : Rows κ ν}
    {t u : Transaction} (h : openTable slot action t = .ok rows u) :
    rows = (slot.get t.view).rows ∧ (slot.get t.view ≠ .missing → u = t) := by
  rw [openTable] at h
  cases hs : slot.get t.view with
  | missing =>
    rw [hs] at h
    cases h
    exact ⟨rfl, fun hne => absurd rfl hne⟩
  | foreign types =>
    rw [hs] at h
    cases h
  | stored r =>
    rw [hs] at h
    cases h
    exact ⟨rfl, fun _ => rfl⟩

abbrev SameIds : Transaction → Transaction → Prop := InvImage Eq fun t => t.view.ids

abbrev SameData : Transaction → Transaction → Prop := InvImage Eq fun t => t.view.data

lemma SameData.ids {t u : Transaction} (h : SameData t u) : SameIds t u := congrArg Prod.fst h

lemma SameData.chunks {t u : Transaction} (h : SameData t u) :
    t.view.chunks.read = u.view.chunks.read :=
  congrArg Prod.snd h

lemma respects_ids {x : Attempt Transaction α} (h : Respects SameData x) : Respects SameIds x :=
  fun t => (h t).ids

section openTable

variable {slot : Container.Slot κ ν}

lemma data_openTable (hslot : ∀ c, slot.get c = .missing →
    (slot.set (.stored Rows.empty) c).data = c.data) (action : Action) :
    Respects SameData (openTable slot action) := fun t => by
  rw [openTable]
  split
  · rfl
  · rfl
  next h =>
    split
    · exact (hslot t.view h).symm
    · rfl

lemma opening_data : Opening SameData where
  writer t := by
    rw [requireWriter]
    split <;> rfl
  metadata := data_openTable fun _ _ => rfl
  descriptors := data_openTable fun c h => by
    change c.descriptors = .missing at h
    simp [Container.Slot.descriptors, Container.data, Container.ids, h, Table.read]
  contents := data_openTable fun c h => by
    change c.contents = .missing at h
    simp [Container.Slot.contents, Container.data, Container.ids, h, Table.read]
  chunks := data_openTable fun c h => by
    change c.chunks = .missing at h
    simp [Container.Slot.chunks, Container.data, Container.ids, h, Table.read]

end openTable

lemma data_insertMeta (key value : String) : Respects SameData (insertMeta key value) :=
  opening_data.insertMeta (fun _ _ => rfl) key value

lemma data_setUp (writable : Bool) (entropy : Uuid) :
    Respects SameData (Upgrade.setUp writable entropy) :=
  opening_data.setUp data_insertMeta writable entropy

lemma writing_requireWriter {t : Transaction} {u : Transaction} (h : requireWriter t = .ok () u) :
    u = t ∧ t.writing = true := by
  rw [requireWriter] at h
  split at h
  next hw => exact ⟨by simpa using h.symm, hw⟩
  · cases h

lemma requireWriter_run {t : Transaction} (h : t.writing = true) : requireWriter t = .ok () t := by
  simp [requireWriter, h]

lemma selectDescriptor_of_find? {t : Transaction} {id : UInt64} {bytes : Bytes}
    (h : t.view.descriptors.rows.find? id = some bytes) :
    selectDescriptor id t = .ok (some bytes) t := by
  rw [selectDescriptor]
  rw [bind_ok (openTable_stored .descriptors (Table.eq_stored h) _),
    Container.Slot.get_descriptors, h, pure_run]

lemma selectDescriptor_cases (id : UInt64) (t : Transaction) :
    (∃ e, selectDescriptor id t = .error e t) ∨
      ∃ u, selectDescriptor id t = .ok (t.view.descriptors.rows.find? id) u ∧ SameData t u := by
  obtain ⟨e, h⟩ | ⟨u, h⟩ := openTable_cases .descriptors .selectDescriptor t
  · exact .inl ⟨e, bind_error h _⟩
  · exact .inr ⟨u, bind_ok h _, (opening_data.descriptors _).of_ok h⟩

lemma insertDescriptor_of_find? {t : Transaction} {bytes : Bytes} {id : UInt64}
    (hw : t.writing = true) (h : t.view.contents.rows.find? bytes = some id) :
    insertDescriptor bytes t = .ok id t := by
  rw [insertDescriptor]
  rw [bind_ok (requireWriter_run hw),
    bind_ok (openTable_stored .contents (Table.eq_stored h) _),
    Container.Slot.get_contents, h]
  rfl

lemma opening_ids : Opening SameIds where
  writer := respects_ids opening_data.writer
  metadata _ := respects_ids (opening_data.metadata _)
  descriptors _ := respects_ids (opening_data.descriptors _)
  contents _ := respects_ids (opening_data.contents _)
  chunks _ := respects_ids (opening_data.chunks _)

lemma ids_insertChunk (timestamp : Int64) (row : ChunkRow) :
    Respects SameIds (insertChunk timestamp row) :=
  opening_ids.insertChunk (fun _ _ => rfl) timestamp row

abbrev SameMode : Transaction → Transaction → Prop := InvImage Eq writing

lemma mode_openTable (slot : Container.Slot κ ν) (action : Action) :
    Respects SameMode (openTable slot action) := fun t => by
  rw [openTable]
  split
  · rfl
  · rfl
  · change t.writing = (if t.writing then { t with view := slot.set (.stored Rows.empty) t.view }
      else t).writing
    split <;> rfl

lemma opening_mode : Opening SameMode where
  writer t := by
    rw [requireWriter]
    split <;> rfl
  metadata := mode_openTable _
  descriptors := mode_openTable _
  contents := mode_openTable _
  chunks := mode_openTable _

lemma mode_insertMeta (key value : String) : Respects SameMode (insertMeta key value) :=
  opening_mode.insertMeta (fun _ _ => rfl) key value

lemma mode_setUp (writable : Bool) (entropy : Uuid) :
    Respects SameMode (Upgrade.setUp writable entropy) :=
  opening_mode.setUp mode_insertMeta writable entropy

lemma mode_insertDescriptor (bytes : Bytes) : Respects SameMode (insertDescriptor bytes) :=
  opening_mode.insertDescriptor (fun _ _ => rfl) (fun _ _ => rfl) bytes

lemma mode_insertChunk (timestamp : Int64) (row : ChunkRow) :
    Respects SameMode (insertChunk timestamp row) :=
  opening_mode.insertChunk (fun _ _ => rfl) timestamp row

lemma commit_eq_view {x : Attempt Transaction α} (hx : Respects SameMode x) {c : Container}
    {t : Transaction} {a : α} (h : x (.begin true c) = .ok a t) : t.commit c = t.view := by
  have hw : true = t.writing := hx.of_ok h
  rw [commit, if_pos hw.symm]

lemma data_commit {x : Attempt Transaction α} (hx : Respects SameData x) {writing : Bool}
    {c : Container} {t : Transaction} {a : α} (h : x (.begin writing c) = .ok a t) :
    (t.commit c).data = c.data := by
  rw [commit]
  split
  · exact (hx.of_ok h).symm
  · rfl

lemma toNat_add_one {id : UInt64} (h : id.toNat + 1 < UInt64.size) :
    (id + 1).toNat = id.toNat + 1 := by
  rw [UInt64.toNat_add]
  exact Nat.mod_eq_of_lt h

lemma add_one_ne_zero_iff {id : UInt64} : id + 1 ≠ 0 ↔ id.toNat + 1 < UInt64.size := by
  have hsum : (id + 1).toNat = (id.toNat + 1) % UInt64.size := UInt64.toNat_add _ _
  have hlt := id.toNat_lt_size
  rw [Ne, ← UInt64.toNat_inj, hsum]
  constructor
  · intro hne
    refine Nat.lt_of_le_of_ne hlt fun heq => hne ?_
    rw [heq]
    rfl
  · intro h
    rw [Nat.mod_eq_of_lt h]
    exact Nat.succ_ne_zero _

lemma hasNumbers_iff {c : Container} : c.HasNumbers ↔ nextId c.descriptors.rows ≠ 0 := by
  rw [Container.HasNumbers, nextId]
  cases c.descriptors.rows.last? with
  | none => simp
  | some e => simp [add_one_ne_zero_iff]

lemma addDescriptor_cases (ids : Rows Bytes UInt64) (bytes : Bytes) (t : Transaction) :
    (∃ e u, addDescriptor ids bytes t = .error e u ∧ SameData t u) ∨
      ∃ u, addDescriptor ids bytes t = .ok (nextId t.view.descriptors.rows) u ∧
        t.view.HasNumbers ∧
        u.view.descriptors =
          .stored (t.view.descriptors.rows.insert (nextId t.view.descriptors.rows) bytes) ∧
        u.view.contents = .stored (ids.insert bytes (nextId t.view.descriptors.rows)) ∧
        u.view.chunks.read = t.view.chunks.read := by
  rw [addDescriptor]
  obtain ⟨e, h⟩ | ⟨u, h⟩ := openTable_cases .descriptors .insertDescriptor t
  · exact .inl ⟨e, t, bind_error h _, rfl⟩
  · have hu : SameData t u := (opening_data.descriptors _).of_ok h
    rw [bind_ok h, Container.Slot.get_descriptors]
    by_cases hid : nextId t.view.descriptors.rows = 0
    · rw [if_pos hid]
      exact .inl ⟨_, u, rfl, hu⟩
    · rw [if_neg hid]
      exact .inr ⟨_, rfl, hasNumbers_iff.2 hid, rfl, rfl, hu.chunks.symm⟩

/-- `d` is `c` with one more descriptor, under the next number. -/
structure Adds (bytes : Bytes) (c d : Container) : Prop where
  hasNumbers : c.HasNumbers
  fresh : c.contents.rows.find? bytes = none
  descriptors : d.descriptors =
    .stored (c.descriptors.rows.insert (nextId c.descriptors.rows) bytes)
  contents : d.contents = .stored (c.contents.rows.insert bytes (nextId c.descriptors.rows))
  chunks : d.chunks.read = c.chunks.read

lemma insertDescriptor_cases (bytes : Bytes) (t : Transaction) :
    (∃ e u, insertDescriptor bytes t = .error e u ∧ SameData t u) ∨
      (∃ id u, insertDescriptor bytes t = .ok id u ∧ t.view.contents.rows.find? bytes = some id ∧
        SameData t u) ∨
      ∃ u, insertDescriptor bytes t = .ok (nextId t.view.descriptors.rows) u ∧
        Adds bytes t.view u.view := by
  rw [insertDescriptor]
  cases hw : requireWriter t with
  | error e u => exact .inl ⟨e, u, bind_error hw _, opening_data.writer.of_error hw⟩
  | ok _ u =>
    obtain ⟨rfl, -⟩ := writing_requireWriter hw
    rw [bind_ok hw]
    obtain ⟨e, hc⟩ | ⟨v, hc⟩ := openTable_cases .contents .insertDescriptor u
    · exact .inl ⟨e, u, bind_error hc _, rfl⟩
    · have hv : SameData u v := (opening_data.contents _).of_ok hc
      rw [bind_ok hc, Container.Slot.get_contents]
      cases hf : u.view.contents.rows.find? bytes with
      | some id => exact .inr (.inl ⟨id, v, rfl, rfl, hv⟩)
      | none =>
        have hrows := Container.descriptors_congr hv.ids
        obtain ⟨e, w, h, hw⟩ | ⟨w, h, hn, hd, hids, hk⟩ :=
          addDescriptor_cases u.view.contents.rows bytes v
        · exact .inl ⟨e, w, h, Eq.trans hv hw⟩
        · rw [Container.HasNumbers, ← hrows] at hn
          rw [← hrows] at h hd hids
          exact .inr (.inr ⟨w, h, hn, hf, hd, hids, hk.trans hv.chunks.symm⟩)

lemma respects_insertDescriptor {R : Transaction → Transaction → Prop}
    (hdata : ∀ {t u}, SameData t u → R t u)
    (hadds : ∀ {bytes t u}, Adds bytes t.view u.view → R t u) (bytes : Bytes) :
    Respects R (insertDescriptor bytes) := fun t => by
  obtain ⟨e, u, h, hu⟩ | ⟨id, u, h, -, hu⟩ | ⟨u, h, hu⟩ := insertDescriptor_cases bytes t
  · rw [h]
    exact hdata hu
  · rw [h]
    exact hdata hu
  · rw [h]
    exact hadds hu

lemma find?_nextId {c : Container} (h : c.HasNumbers) :
    c.descriptors.rows.find? (nextId c.descriptors.rows) = none := by
  cases hl : c.descriptors.rows.last? with
  | none => simp [Rows.find?, Rows.last?_eq_none hl]
  | some e =>
    cases hf : c.descriptors.rows.find? (nextId c.descriptors.rows) with
    | none => rfl
    | some bytes =>
      have hle := Rows.le_of_last? hl (Rows.mem_of_find? hf)
      have hsum := toNat_add_one (h e hl)
      simp only [nextId, hl, UInt64.le_iff_toNat_le] at hle
      omega

lemma insertRow_ok [LE κ] [DecidableLT κ] [Std.IsLinearOrder κ] [Std.LawfulOrderLT κ]
    {slot : Container.Slot κ ν} {action : Action} {k : κ} {v : ν} {t u : Transaction}
    (h : (requireWriter >>= fun _ => openTable slot action >>= fun rows =>
      putRows slot (rows.insert k v)) t = .ok () u) :
    ∃ w, u.view = slot.set (.stored ((slot.get t.view).rows.insert k v)) w := by
  obtain ⟨_, s, hw, hrest⟩ := of_bind_ok h
  obtain ⟨rfl, -⟩ := writing_requireWriter hw
  obtain ⟨rows, w, hopen, hput⟩ := of_bind_ok hrest
  obtain ⟨rfl, -⟩ := openTable_inv hopen
  cases hput
  exact ⟨w.view, rfl⟩

lemma insertChunk_ok {t u : Transaction} {timestamp : Int64} {row : ChunkRow}
    (h : insertChunk timestamp row t = .ok () u) :
    u.view.ids = t.view.ids ∧ u.view.chunks = .stored (t.view.chunks.rows.insert timestamp row) := by
  obtain ⟨w, hu⟩ := insertRow_ok h
  refine ⟨((ids_insertChunk timestamp row).of_ok h).symm, ?_⟩
  rw [hu]
  rfl

structure Numbers (c d : Container) : Prop where
  inverse : d.Inverse
  grows : c.Extends d
  chunks : d.chunks.read = c.chunks.read
  readable : c.descriptors.read = .ok c.descriptors.rows →
    d.descriptors.read = .ok d.descriptors.rows

lemma numbers_of_data {t u : Transaction} (hi : t.view.Inverse)
    (h : SameData t u) : Numbers t.view u.view where
  inverse := hi.congr h.ids
  grows := Container.extends_of_ids h.ids
  chunks := h.chunks.symm
  readable hc := by
    rw [← Container.descriptors_congr h.ids, ← hc]
    exact (congrArg Prod.fst h.ids).symm

section Adds

variable {bytes : Bytes} {c d : Container} (h : Adds bytes c d)

include h

lemma Adds.rows : d.descriptors.rows =
    c.descriptors.rows.insert (nextId c.descriptors.rows) bytes := by
  rw [h.descriptors, Table.rows]

lemma Adds.contentRows : d.contents.rows =
    c.contents.rows.insert bytes (nextId c.descriptors.rows) := by
  rw [h.contents, Table.rows]

lemma Adds.grows : c.Extends d where
  descriptors {id b} hb := by
    have hne : id ≠ nextId c.descriptors.rows := fun he => by
      simp [he, find?_nextId h.hasNumbers] at hb
    rwa [h.rows, Rows.find?_insert_of_ne _ _ hne]
  contents {b id} hb := by
    have hne : b ≠ bytes := fun he => by simp [he, h.fresh] at hb
    rwa [h.contentRows, Rows.find?_insert_of_ne _ _ hne]

lemma Adds.inverse (hi : c.Inverse) : d.Inverse := fun id b => by
  rw [h.rows, h.contentRows, Rows.find?_insert, Rows.find?_insert]
  by_cases hid : id = nextId c.descriptors.rows <;> by_cases hb : b = bytes
  · simp [hid, hb]
  · have hno : c.contents.rows.find? b ≠ some (nextId c.descriptors.rows) := fun hf => by
      simpa [find?_nextId h.hasNumbers] using (hi _ _).2 hf
    simp [hid, hb, hno, Ne.symm hb]
  · have hno : c.descriptors.rows.find? id ≠ some bytes := fun hf => by
      simpa [h.fresh] using (hi _ _).1 hf
    simp [hid, hb, hno, Ne.symm hid]
  · simpa [hid, hb] using hi id b

lemma Adds.numbers (hi : c.Inverse) : Numbers c d where
  inverse := h.inverse hi
  grows := h.grows
  chunks := h.chunks
  readable _ := by rw [h.descriptors, Table.read, Table.rows]

end Adds

theorem insertDescriptor_numbers {t : Transaction} (bytes : Bytes) (hi : t.view.Inverse) :
    Numbers t.view (state (insertDescriptor bytes t)).view :=
  respects_insertDescriptor (R := fun t u => t.view.Inverse → Numbers t.view u.view)
    (fun hu hi => numbers_of_data hi hu) Adds.numbers bytes t hi

theorem find?_of_insertDescriptor {t u : Transaction} {bytes : Bytes} {id : UInt64}
    (hi : t.view.Inverse) (h : insertDescriptor bytes t = .ok id u) :
    u.view.descriptors.rows.find? id = some bytes ∧ u.view.contents.rows.find? bytes = some id := by
  obtain ⟨e, u', h', -⟩ | ⟨id', u', h', hc, hu⟩ | ⟨u', h', hu⟩ := insertDescriptor_cases bytes t
  · simp [h] at h'
  · obtain ⟨rfl, rfl⟩ : id = id' ∧ u = u' := by simpa [h] using h'
    rw [← Container.descriptors_congr hu.ids, ← Container.contents_congr hu.ids]
    exact ⟨(hi _ _).2 hc, hc⟩
  · obtain ⟨rfl, rfl⟩ : id = nextId t.view.descriptors.rows ∧ u = u' := by simpa [h] using h'
    rw [hu.rows, hu.contentRows]
    exact ⟨Rows.find?_insert_self _ _ _, Rows.find?_insert_self _ _ _⟩

end ChunkStore.Transaction
