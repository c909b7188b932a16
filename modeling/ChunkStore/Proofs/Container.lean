import ChunkStore.Container.Basic
import ChunkStore.Descriptor
import ChunkStore.Proofs.Rows

namespace ChunkStore

/-- What an access to a table finds: a missing table counts as an empty one. -/
def Table.read {κ ν : Type} [LT κ] : Table κ ν → Except RowTypes (Rows κ ν)
  | stored rows => .ok rows
  | missing => .ok Rows.empty
  | foreign types => .error types

lemma Table.rows_of_read {κ ν : Type} [LT κ] {t : Table κ ν} {rows : Rows κ ν}
    (h : t.read = .ok rows) : t.rows = rows := by
  cases t with
  | missing => exact Except.ok.inj h
  | foreign types => cases h
  | stored r => exact Except.ok.inj h

lemma Table.rows_congr {κ ν : Type} [LT κ] {t u : Table κ ν} (h : t.read = u.read) :
    t.rows = u.rows := by
  cases ht : t.read with
  | ok rows => rw [rows_of_read ht, rows_of_read (h ▸ ht)]
  | error types =>
    cases t with
    | foreign _ =>
      cases u with
      | foreign _ => rfl
      | missing => cases h
      | stored r => cases h
    | missing => cases ht
    | stored r => cases ht

lemma Table.eq_stored {κ ν : Type} [LT κ] [DecidableEq κ] {t : Table κ ν} {k : κ} {v : ν}
    (h : t.rows.find? k = some v) : t = .stored t.rows := by
  cases t with
  | stored r => rfl
  | missing => simp [rows] at h
  | foreign types => simp [rows] at h

lemma Descriptor.decode_eq_ok {bytes : Bytes} {id : UInt64} {scope : Option StoreId}
    {d : Descriptor} : decode bytes id scope = .ok d ↔
      TrackList.decode id bytes = .ok d.toTrackList ∧ d.scope = scope ∧ d.persistedId = id := by
  rw [decode]
  cases h : TrackList.decode id bytes with
  | error e => simp
  | ok l =>
    obtain ⟨m, s, i⟩ := d
    simp [eq_comm]

namespace Container

@[simp] lemma Slot.get_descriptors (c : Container) : Slot.descriptors.get c = c.descriptors := rfl

@[simp] lemma Slot.get_contents (c : Container) : Slot.contents.get c = c.contents := rfl

def ids (c : Container) : Except RowTypes (Rows UInt64 Bytes) × Except RowTypes (Rows Bytes UInt64) :=
  (c.descriptors.read, c.contents.read)

def data (c : Container) := (c.ids, c.chunks.read)

def Inverse (c : Container) : Prop :=
  ∀ id bytes, c.descriptors.rows.find? id = some bytes ↔ c.contents.rows.find? bytes = some id

def Holds (c : Container) (id : UInt64) (l : TrackList) : Prop :=
  ∃ bytes, c.descriptors.rows.find? id = some bytes ∧ TrackList.decode id bytes = .ok l

def Keeps (c : Container) (scope : StoreId) (d : Descriptor) : Prop :=
  d.scope = some scope ∧ c.Holds d.persistedId d.toTrackList

structure Readable (c : Container) : Prop where
  descriptors : c.descriptors.read = .ok c.descriptors.rows
  chunks : c.chunks.read = .ok c.chunks.rows

def HasNumbers (c : Container) : Prop := ∀ e ∈ c.descriptors.rows.last?, e.1.toNat + 1 < UInt64.size

structure Extends (c d : Container) : Prop where
  descriptors : ∀ {id bytes}, c.descriptors.rows.find? id = some bytes →
    d.descriptors.rows.find? id = some bytes
  contents : ∀ {bytes id}, c.contents.rows.find? bytes = some id →
    d.contents.rows.find? bytes = some id

variable {c d : Container}

lemma descriptors_congr (h : c.ids = d.ids) : c.descriptors.rows = d.descriptors.rows :=
  Table.rows_congr (congrArg Prod.fst h)

lemma contents_congr (h : c.ids = d.ids) : c.contents.rows = d.contents.rows :=
  Table.rows_congr (congrArg Prod.snd h)

lemma Inverse.congr (hc : c.Inverse) (h : c.ids = d.ids) : d.Inverse := by
  rw [Inverse, ← descriptors_congr h, ← contents_congr h]
  exact hc

lemma extends_of_ids (h : c.ids = d.ids) : c.Extends d where
  descriptors hd := by rwa [← descriptors_congr h]
  contents hc := by rwa [← contents_congr h]

lemma Extends.trans {e : Container} (h : c.Extends d) (k : d.Extends e) : c.Extends e where
  descriptors hd := k.descriptors (h.descriptors hd)
  contents hc := k.contents (h.contents hc)

lemma Holds.extend {id : UInt64} {l : TrackList} (h : c.Holds id l) (hcd : c.Extends d) :
    d.Holds id l := by
  obtain ⟨bytes, hb, hl⟩ := h
  exact ⟨bytes, hcd.descriptors hb, hl⟩

lemma Keeps.extend {scope : StoreId} {e : Descriptor} (h : c.Keeps scope e) (hcd : c.Extends d) :
    d.Keeps scope e :=
  ⟨h.1, h.2.extend hcd⟩

lemma keeps_of_decode {scope : StoreId} {bytes : Bytes} {id : UInt64} {e : Descriptor}
    (hb : c.descriptors.rows.find? id = some bytes)
    (he : Descriptor.decode bytes id (some scope) = .ok e) : e.persistedId = id ∧ c.Keeps scope e := by
  obtain ⟨hl, hs, rfl⟩ := Descriptor.decode_eq_ok.1 he
  exact ⟨rfl, hs, bytes, hb, hl⟩

lemma Holds.unique {id : UInt64} {l m : TrackList} (h : c.Holds id l) (k : c.Holds id m) : l = m := by
  obtain ⟨bytes, hb, hl⟩ := h
  obtain ⟨_, hb', hm⟩ := k
  obtain rfl := Option.some.inj (hb.symm.trans hb')
  exact Except.ok.inj (hl.symm.trans hm)

end Container
end ChunkStore
