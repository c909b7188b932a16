import ChunkStore.Proofs.Decimal
import ChunkStore.Proofs.StoreId
import ChunkStore.Proofs.Transaction.Still
import ChunkStore.Proofs.Transaction.Tables

namespace ChunkStore

open Attempt

namespace Schema

def reached (version : Int32) : Int32 := version + Int32.ofNat (pending version).length

lemma toInt_expectedVersion : expectedVersion.toInt = steps.length := by decide

lemma length_pending (version : Int32) :
    (pending version).length = steps.length - version.toInt.toNat := by
  rw [pending, List.length_drop]
  rfl

lemma pending_eq_nil_iff {version : Int32} : pending version = [] ↔ expectedVersion ≤ version := by
  have hpos : 0 < steps.length := by decide
  rw [← List.length_eq_zero_iff, length_pending, Int32.le_iff_toInt_le, toInt_expectedVersion]
  omega

lemma toInt_reached (version : Int32) :
    (reached version).toInt = version.toInt + (steps.length - version.toInt.toNat : Nat) := by
  have hfew : steps.length < 2 ^ 31 := by decide
  have hb := version.le_toInt
  have ha := version.toInt_lt
  have hk : (Int32.ofNat (steps.length - version.toInt.toNat)).toInt =
      (steps.length - version.toInt.toNat : Nat) := Int32.toInt_ofNat_of_lt (by omega)
  rw [reached, length_pending, Int32.toInt_add, hk]
  exact Int.bmod_eq_of_le (by omega) (by omega)

/-- A version below 0 is counted up from where it is, so that it ends below the expected one. -/
lemma expectedVersion_le_reached_iff {version : Int32} :
    expectedVersion ≤ reached version ↔ 0 ≤ version := by
  rw [Int32.le_iff_toInt_le, Int32.le_iff_toInt_le, toInt_reached, toInt_expectedVersion,
    Int32.toInt_zero]
  omega

end Schema

namespace Container

def schemaVersion (c : Container) : Int32 :=
  Transaction.versionOf (c.metadata.rows.find? ReservedKey.version.text)

structure Registers (c : Container) (version : Int32) (id : StoreId) : Prop where
  version : ∃ text, c.metadata.rows.find? ReservedKey.version.text = some text ∧
    Decimal.readInt32 text = .ok version
  id : ∃ text, c.metadata.rows.find? ReservedKey.id.text = some text ∧ StoreId.read text = .ok id

variable {c : Container} {version : Int32} {id : StoreId}

lemma Registers.stored (h : c.Registers version id) : c.metadata = .stored c.metadata.rows :=
  Table.eq_stored h.version.choose_spec.1

lemma Registers.schemaVersion (h : c.Registers version id) : c.schemaVersion = version := by
  obtain ⟨text, hf, hr⟩ := h.version
  simp only [Container.schemaVersion, hf, Transaction.versionOf, Option.map_some, hr]

lemma readInt32_of_schemaVersion (h : c.schemaVersion ≠ 0) :
    ∃ text, c.metadata.rows.find? ReservedKey.version.text = some text ∧
      Decimal.readInt32 text = .ok c.schemaVersion := by
  cases hf : c.metadata.rows.find? ReservedKey.version.text with
  | none => simp [Container.schemaVersion, hf, Transaction.versionOf] at h
  | some text =>
    cases hr : Decimal.readInt32 text with
    | error flaw => simp [Container.schemaVersion, hf, Transaction.versionOf, hr] at h
    | ok v => exact ⟨text, rfl, by simp [Container.schemaVersion, hf, Transaction.versionOf, hr]⟩

lemma readInt32_of_expectedVersion_le (h : Schema.expectedVersion ≤ c.schemaVersion) :
    ∃ text, c.metadata.rows.find? ReservedKey.version.text = some text ∧
      Decimal.readInt32 text = .ok c.schemaVersion := by
  apply readInt32_of_schemaVersion
  intro h0
  rw [h0] at h
  exact absurd h (by decide)

structure Upgraded (c : Container) (entropy : Uuid) (d : Container) : Prop where
  data : d.data = c.data
  rows : ∀ key, key ≠ ReservedKey.version.text → key ≠ ReservedKey.id.text →
    d.metadata.rows.find? key = c.metadata.rows.find? key
  id : d.metadata.rows.find? ReservedKey.id.text =
    some ((c.metadata.rows.find? ReservedKey.id.text).getD (StoreId.fresh entropy).text)
  version : d.schemaVersion = Schema.reached c.schemaVersion
  current : Schema.expectedVersion ≤ c.schemaVersion → d = c

end Container

namespace Transaction

abbrev SameMetadata : Transaction → Transaction → Prop :=
  InvImage Eq fun t => t.view.metadata.read

lemma SameMetadata.rows {t u : Transaction} (h : SameMetadata t u) :
    t.view.metadata.rows = u.view.metadata.rows :=
  Table.rows_congr h

section

variable {κ ν : Type} [LT κ]

lemma metadata_openTable {slot : Container.Slot κ ν} (hslot : ∀ c, slot.get c = .missing →
    (slot.set (.stored Rows.empty) c).metadata.read = c.metadata.read) (action : Action) :
    Respects SameMetadata (openTable slot action) := fun t => by
  rw [openTable]
  split
  · rfl
  · rfl
  next h =>
    split
    · exact (hslot t.view h).symm
    · rfl

end

lemma opening_metadata : Opening SameMetadata where
  writer t := by
    rw [requireWriter]
    split <;> rfl
  metadata := metadata_openTable fun c h => by
    change c.metadata = .missing at h
    simp [Container.Slot.metadata, h, Table.read]
  descriptors := metadata_openTable fun _ _ => rfl
  contents := metadata_openTable fun _ _ => rfl
  chunks := metadata_openTable fun _ _ => rfl

lemma selectMeta_ok {key : String} {text : Option String} {t u : Transaction}
    (h : selectMeta key t = .ok text u) :
    text = t.view.metadata.rows.find? key ∧ SameMetadata t u := by
  refine ⟨?_, (opening_metadata.selectMeta key).of_ok h⟩
  obtain ⟨rows, v, hopen, hrows⟩ := of_bind_ok h
  obtain ⟨rfl, -⟩ := of_pure_ok hrows
  rw [(openTable_inv hopen).1]
  rfl

lemma selectMeta_stored {t : Transaction} (h : t.view.metadata = .stored t.view.metadata.rows)
    (key : String) : selectMeta key t = .ok (t.view.metadata.rows.find? key) t :=
  bind_ok (openTable_stored .metadata h _) _

lemma metadata_insertDescriptor (bytes : Bytes) : Respects SameMetadata (insertDescriptor bytes) :=
  opening_metadata.insertDescriptor (fun _ _ => rfl) (fun _ _ => rfl) bytes

lemma metadata_insertChunk (timestamp : Int64) (row : ChunkRow) :
    Respects SameMetadata (insertChunk timestamp row) :=
  opening_metadata.insertChunk (fun _ _ => rfl) timestamp row

lemma insertMeta_ok {key value : String} {t u : Transaction} (h : insertMeta key value t = .ok () u) :
    u.view.metadata = .stored (t.view.metadata.rows.insert key value) := by
  obtain ⟨w, hu⟩ := insertRow_ok h
  rw [hu]
  rfl

lemma insertEpoch_ok {n : Int64} {t u : Transaction} (h : insertEpoch n t = .ok () u) :
    t.view.metadata.rows.find? ReservedKey.epoch.text = none ∧
      u.view.metadata =
        .stored (t.view.metadata.rows.insert ReservedKey.epoch.text (Decimal.ofInt n.toInt)) := by
  obtain ⟨text, v, hs, hrest⟩ := of_bind_ok h
  obtain ⟨htext, hv⟩ := selectMeta_ok hs
  cases text with
  | some text => cases hrest
  | none => exact ⟨htext.symm, hv.rows ▸ insertMeta_ok hrest⟩

lemma insertEpoch_again {n : Int64} {t : Transaction} {text : String}
    (h : t.view.metadata.rows.find? ReservedKey.epoch.text = some text) :
    insertEpoch n t = .error .epochAlreadySet t := by
  rw [insertEpoch, bind_ok (selectMeta_stored (Table.eq_stored h) _), h]
  rfl

lemma eq_of_selectMeta {key : String} {t u : Transaction} {text : Option String}
    (hm : t.writing = true → t.view.metadata ≠ .missing) (h : selectMeta key t = .ok text u) :
    u = t := by
  by_cases hw : t.writing = true
  · obtain ⟨rows, v, hopen, hrows⟩ := of_bind_ok h
    obtain ⟨-, rfl⟩ := of_pure_ok hrows
    exact (openTable_inv hopen).2 (hm hw)
  · exact (opening_still.selectMeta key).of_ok h (by simpa using hw)

lemma selectVersion_ok {t u : Transaction} {version : Int32} (h : selectVersion t = .ok version u) :
    version = t.view.schemaVersion ∧ u = t := by
  rw [selectVersion] at h
  split at h
  next hm =>
    obtain ⟨-, hm⟩ : t.writing = true ∧ t.view.metadata = .missing := by simpa using hm
    cases h
    exact ⟨by simp [Container.schemaVersion, hm, Table.rows, versionOf], rfl⟩
  next hm =>
    obtain ⟨text, hs, rfl⟩ := of_map_ok h
    rw [(selectMeta_ok hs).1]
    exact ⟨rfl, eq_of_selectMeta (by simpa using hm) hs⟩

lemma readable_of_selectVersion {t u : Transaction} {version : Int32}
    (h : selectVersion t = .ok version u) : t.view.metadata.read = .ok t.view.metadata.rows := by
  cases hm : t.view.metadata with
  | missing => rfl
  | stored rows => rfl
  | foreign types =>
    have hno : ¬ (t.writing && t.view.metadata = .missing) = true := by simp [hm]
    rw [selectVersion, if_neg hno] at h
    obtain ⟨text, hs, -⟩ := of_map_ok h
    obtain ⟨rows, v, hopen, -⟩ := of_bind_ok hs
    simp [openTable, Container.Slot.metadata, hm] at hopen

lemma selectVersion_run {t : Transaction} (h : t.view.metadata.read = .ok t.view.metadata.rows) :
    ∃ u, selectVersion t = .ok t.view.schemaVersion u := by
  rw [selectVersion]
  split
  next hm =>
    obtain ⟨-, hm⟩ : t.writing = true ∧ t.view.metadata = .missing := by simpa using hm
    refine ⟨t, ?_⟩
    simp [Container.schemaVersion, hm, Table.rows, versionOf]
  · have hread : (Container.Slot.metadata.get t.view).read = .ok t.view.metadata.rows := h
    obtain ⟨u, hu⟩ := openTable_ok hread .selectMeta
    have hs : selectMeta ReservedKey.version.text t =
        .ok (t.view.metadata.rows.find? ReservedKey.version.text) u := bind_ok hu _
    exact ⟨u, map_ok hs _⟩

end Transaction

namespace Upgrade

open Transaction

variable {t u : Transaction} {version w : Int32} {id : StoreId}

lemma step_ok {step : SchemaStep} {key value : String}
    (h : (migrate step >>= fun _ => insertMeta key value) t = .ok () u) :
    u.view.metadata.rows = t.view.metadata.rows.insert key value := by
  obtain ⟨_, v, hm, hi⟩ := of_bind_ok h
  have hv : SameMetadata t v := (opening_metadata.migrate step).of_ok hm
  rw [hv.rows, insertMeta_ok hi, Table.rows]

lemma applySteps_ok {steps : List SchemaStep} (h : applySteps version steps t = .ok w u) :
    w = version + Int32.ofNat steps.length ∧
      (∀ key, key ≠ ReservedKey.version.text →
        u.view.metadata.rows.find? key = t.view.metadata.rows.find? key) ∧
      (steps = [] ∧ u = t ∨ u.view.metadata.rows.find? ReservedKey.version.text =
        some (Decimal.ofInt w.toInt)) := by
  -- Every step overwrites the version of the one before, so that the last one's stays.
  induction steps generalizing version t with
  | nil =>
    obtain ⟨rfl, rfl⟩ : version = w ∧ t = u := by simpa [applySteps, pure_run] using h
    exact ⟨by simp, fun _ _ => rfl, .inl ⟨rfl, rfl⟩⟩
  | cons step steps ih =>
    simp only [applySteps] at h
    split at h
    next v hv =>
      have hrows := step_ok hv
      obtain ⟨hw, hkeep, hlast⟩ := ih h
      refine ⟨?_, fun key hkey => ?_, .inr ?_⟩
      · rw [hw, List.length_cons, Nat.add_comm steps.length, Int32.ofNat_add, Int32.add_assoc]
        rfl
      · rw [hkeep key hkey, hrows, Rows.find?_insert_of_ne _ _ hkey]
      · obtain ⟨rfl, rfl⟩ | hlast := hlast
        · obtain rfl : w = version + 1 := by simpa using hw
          rw [hrows, Rows.find?_insert_self]
        · exact hlast
    · cases h

lemma reached_of_applySteps
    (h : applySteps t.view.schemaVersion (Schema.pending t.view.schemaVersion) t = .ok w u) :
    w = Schema.reached t.view.schemaVersion ∧
      ∃ text, u.view.metadata.rows.find? ReservedKey.version.text = some text ∧
        Decimal.readInt32 text = .ok w := by
  obtain ⟨rfl, -, ⟨hnil, rfl⟩ | hlast⟩ := applySteps_ok h
  · -- Nothing was due, so the row that was found is still there, and it can be read: an unreadable
    -- one counts as version 0.
    refine ⟨rfl, ?_⟩
    rw [hnil]
    simpa using Container.readInt32_of_expectedVersion_le (Schema.pending_eq_nil_iff.1 hnil)
  · exact ⟨rfl, _, hlast, Decimal.readInt32_ofInt _⟩

lemma identity_ok {text : Option String} (h : identity text = .ok id) :
    ∃ s, text = some s ∧ StoreId.read s = .ok id := by
  cases text with
  | none => cases h
  | some s =>
    rw [identity] at h
    cases hr : StoreId.read s with
    | error flaw =>
      rw [hr] at h
      cases h
    | ok i =>
      rw [hr] at h
      cases h
      exact ⟨s, rfl, hr⟩

lemma upgrade_cases {entropy : Uuid} (h : upgrade entropy t = .ok (version, id) u) :
    ∃ v, applySteps t.view.schemaVersion (Schema.pending t.view.schemaVersion) t = .ok version v ∧
      ((v.view.metadata.rows.find? ReservedKey.id.text = none ∧ id = .fresh entropy ∧
          t.view.schemaVersion < Schema.expectedVersion ∧
          u.view.metadata = .stored (v.view.metadata.rows.insert ReservedKey.id.text id.text)) ∨
        identity (v.view.metadata.rows.find? ReservedKey.id.text) = .ok id ∧ SameMetadata v u) := by
  obtain ⟨found, _, hf, hrest⟩ := of_bind_ok h
  obtain ⟨rfl, rfl⟩ := selectVersion_ok hf
  obtain ⟨w, v, hs, hrest⟩ := of_bind_ok hrest
  obtain ⟨_, x, hm, hrest⟩ := of_bind_ok hrest
  obtain ⟨rfl, hx⟩ := selectMeta_ok hm
  split at hrest
  next hdue =>
    obtain ⟨_, hi, hpair⟩ := of_map_ok hrest
    obtain ⟨rfl, rfl⟩ := Prod.mk.inj hpair
    refine ⟨v, hs, .inl ⟨Option.isNone_iff_eq_none.1 hdue.1, rfl, hdue.2, ?_⟩⟩
    rw [insertMeta_ok hi, ← hx.rows]
  · obtain ⟨i, _, hid, hrest⟩ := of_bind_ok hrest
    obtain ⟨hident, rfl⟩ := of_ofExcept_ok hid
    obtain ⟨hpair, rfl⟩ := of_pure_ok hrest
    obtain ⟨rfl, rfl⟩ := Prod.mk.inj hpair
    exact ⟨v, hs, .inr ⟨hident, hx⟩⟩

lemma upgrade_ok {entropy : Uuid} (h : upgrade entropy t = .ok (version, id) u) :
    version = Schema.reached t.view.schemaVersion ∧ u.view.Registers version id := by
  obtain ⟨v, hs, ⟨-, rfl, -, hu⟩ | ⟨hident, hu⟩⟩ := upgrade_cases h
  · obtain ⟨hw, text, hv, hr⟩ := reached_of_applySteps hs
    refine ⟨hw, ⟨text, ?_, hr⟩, _, ?_, StoreId.read_fresh entropy⟩
    · rw [hu, Table.rows, Rows.find?_insert_of_ne _ _ (by decide), hv]
    · rw [hu, Table.rows, Rows.find?_insert_self]
  · obtain ⟨hw, text, hv, hr⟩ := reached_of_applySteps hs
    rw [hu.rows] at hv hident
    exact ⟨hw, ⟨text, hv, hr⟩, identity_ok hident⟩

section Registered

variable (h : t.view.Registers version id)

include h

lemma selectVersion_registered : selectVersion t = .ok version t := by
  have hm : ¬ (t.writing && t.view.metadata = .missing) = true := by
    rw [h.stored]
    simp
  rw [selectVersion, if_neg hm, map_ok (selectMeta_stored h.stored _)]
  exact congrArg (EStateM.Result.ok · t) h.schemaVersion

lemma identity_registered :
    identity (t.view.metadata.rows.find? ReservedKey.id.text) = .ok id := by
  obtain ⟨text, hf, hr⟩ := h.id
  rw [hf, identity, hr]
  rfl

lemma validate_registered (hv : Schema.expectedVersion ≤ version) :
    validate t = .ok (version, id) t := by
  rw [validate, bind_ok (selectVersion_registered h)]
  rw [if_neg (Int32.not_lt.2 hv)]
  dsimp only
  rw [bind_ok (selectMeta_stored h.stored _), identity_registered h]
  rfl

lemma validate_tooOld (hv : version < Schema.expectedVersion) :
    validate t = .error (.schemaTooOld version Schema.expectedVersion) t := by
  rw [validate, bind_ok (selectVersion_registered h)]
  rw [if_pos hv]
  rfl

lemma upgrade_registered (hv : Schema.expectedVersion ≤ version) (entropy : Uuid) :
    upgrade entropy t = .ok (version, id) t := by
  rw [upgrade, bind_ok (selectVersion_registered h), Schema.pending_eq_nil_iff.2 hv]
  have hnil : applySteps version [] t = .ok version t := rfl
  rw [bind_ok hnil, bind_ok (selectMeta_stored h.stored _),
    if_neg fun hno => Int32.not_lt.2 hv hno.2, identity_registered h]
  rfl

end Registered

lemma registers_of_current (hv : Schema.expectedVersion ≤ t.view.schemaVersion)
    (hid : identity (t.view.metadata.rows.find? ReservedKey.id.text) = .ok id) :
    t.view.Registers t.view.schemaVersion id :=
  ⟨Container.readInt32_of_expectedVersion_le hv, identity_ok hid⟩

lemma validate_ok (h : validate t = .ok (version, id) u) :
    Schema.expectedVersion ≤ version ∧ t.view.Registers version id ∧ u = t := by
  obtain ⟨found, _, hf, hrest⟩ := of_bind_ok h
  obtain ⟨rfl, rfl⟩ := selectVersion_ok hf
  split at hrest
  · cases hrest
  next hv =>
    have hv := Int32.not_lt.1 hv
    obtain ⟨text, x, hm, hrest⟩ := of_bind_ok hrest
    obtain ⟨rfl, -⟩ := selectMeta_ok hm
    obtain ⟨i, _, hid, hrest⟩ := of_bind_ok hrest
    obtain ⟨hident, rfl⟩ := of_ofExcept_ok hid
    obtain ⟨hpair, rfl⟩ := of_pure_ok hrest
    obtain ⟨rfl, rfl⟩ := Prod.mk.inj hpair
    have hreg := registers_of_current hv hident
    rw [selectMeta_stored hreg.stored] at hm
    cases hm
    exact ⟨hv, hreg, rfl⟩

lemma eq_of_upgrade {entropy : Uuid} (hv : Schema.expectedVersion ≤ t.view.schemaVersion)
    (h : upgrade entropy t = .ok (version, id) u) : u = t := by
  obtain ⟨v, hs, ⟨-, -, hdue, -⟩ | ⟨hident, -⟩⟩ := upgrade_cases h
  · exact absurd hv (Int32.not_le.2 hdue)
  · rw [(applySteps_ok hs).2.1 _ (by decide)] at hident
    rw [upgrade_registered (registers_of_current hv hident) hv] at h
    cases h
    rfl

theorem upgraded_of_upgrade {entropy : Uuid} (h : upgrade entropy t = .ok (version, id) u) :
    t.view.Upgraded entropy u.view := by
  obtain ⟨hversion, hreg⟩ := upgrade_ok h
  have hdata : t.view.data = u.view.data := (data_setUp true entropy).of_ok h
  have hrows : (∀ key, key ≠ ReservedKey.version.text → key ≠ ReservedKey.id.text →
      u.view.metadata.rows.find? key = t.view.metadata.rows.find? key) ∧
      u.view.metadata.rows.find? ReservedKey.id.text =
        some ((t.view.metadata.rows.find? ReservedKey.id.text).getD (StoreId.fresh entropy).text) := by
    obtain ⟨v, hs, hu⟩ := upgrade_cases h
    obtain ⟨-, hkeep, -⟩ := applySteps_ok hs
    rw [← hkeep _ (by decide : ReservedKey.id.text ≠ ReservedKey.version.text)]
    obtain ⟨hno, rfl, -, hu⟩ | ⟨hident, hu⟩ := hu
    · rw [hu, Table.rows, hno, Rows.find?_insert_self]
      refine ⟨fun key hv hid => ?_, rfl⟩
      rw [Rows.find?_insert_of_ne _ _ hid, hkeep key hv]
    · obtain ⟨text, htext, -⟩ := identity_ok hident
      rw [← hu.rows, htext]
      exact ⟨fun key hv _ => hkeep key hv, rfl⟩
  exact ⟨hdata.symm, hrows.1, hrows.2, hreg.schemaVersion.trans hversion, fun hv =>
    congrArg Transaction.view (eq_of_upgrade hv h)⟩

lemma upgraded_of_setUp {c : Container} {entropy : Uuid}
    (h : setUp true entropy (.begin true c) = .ok (version, id) t) :
    c.Upgraded entropy (t.commit c) := by
  rw [commit_eq_view (mode_setUp true entropy) h]
  exact upgraded_of_upgrade h

end Upgrade
end ChunkStore
