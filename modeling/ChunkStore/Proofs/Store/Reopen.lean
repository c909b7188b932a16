import ChunkStore.Proofs.Store.Basic
import ChunkStore.Proofs.Transaction.Upgrade

namespace ChunkStore

open Attempt Transaction

namespace Store

section

variable {s : Store} {f : File} {c : Container} {writable : Bool} {entropy : Uuid} {t : Transaction}

lemma openFile_ok (hs : s.phase = .initial) (hv : s.config.validate = .ok ())
    (hc : f.contents? writable = .ok c) {version : Int32} {id : StoreId}
    (hu : Upgrade.setUp writable entropy (.begin writable c) = .ok (version, id) t) :
    openFile writable entropy (s, f) =
      .ok () ({ s with
        phase := .opened (.start writable id s.config.descriptorCacheCapacity), version },
        .container true (t.commit c)) := by
  simp only [openFile, hs, File.acquire, hv, hc, transact_ok (inTransaction_ok hu)]

lemma openFile_error (hs : s.phase = .initial) (hv : s.config.validate = .ok ())
    (hc : f.contents? writable = .ok c) {e : Error}
    (hu : Upgrade.setUp writable entropy (.begin writable c) = .error e t) :
    openFile writable entropy (s, f) =
      .error e ({ s with phase := .closed }, .container false c) := by
  simp only [openFile, hs, File.acquire, hv, hc, transact_error (inTransaction_error hu)]

lemma of_openFile_ok {s' : Store} {f' : File} (h : openFile writable entropy (s, f) = .ok () (s', f')) :
    s.phase = .initial ∧ s.config.validate = .ok () ∧ ∃ c version id t,
      f.contents? writable = .ok c ∧
        Upgrade.setUp writable entropy (.begin writable c) = .ok (version, id) t ∧
          s' = { s with
            phase := .opened (.start writable id s.config.descriptorCacheCapacity), version } ∧
            f' = .container true (t.commit c) := by
  by_cases hs : s.phase = .initial
  · refine ⟨hs, ?_⟩
    cases hv : s.config.validate with
    | error e => simp [openFile, hs, File.acquire, hv] at h
    | ok _ =>
      refine ⟨rfl, ?_⟩
      obtain ⟨e, he⟩ | ⟨c, hc, ⟨e, t, -, he⟩ | ⟨version, id, t, hu, he⟩⟩ :=
        openFile_cases hs writable entropy f
      · simp [he] at h
      · simp [he] at h
      · rw [he] at h
        cases h
        exact ⟨c, version, id, t, hc, hu, rfl, rfl⟩
  · simp [openFile_again hs] at h

end

def Opens (writable : Bool) (f : File) (version : Int32) (id : StoreId) (c : Container) : Prop :=
  ∀ (s : Store) (entropy : Uuid), s.phase = .initial → s.config.validate = .ok () →
    openFile writable entropy (s, f) =
      .ok () ({ s with
        phase := .opened (.start writable id s.config.descriptorCacheCapacity), version },
        .container true c)

def RefusesReaders (f : File) (version : Int32) : Prop :=
  ∀ (s : Store) (entropy : Uuid), s.phase = .initial → s.config.validate = .ok () →
    outcome (openFile false entropy (s, f)) = .error (.schemaTooOld version Schema.expectedVersion)

structure UpToDate (s : Store) (f : File) : Prop where
  current : Schema.expectedVersion ≤ s.version
  reopens : ∃ c id, f = .container true c ∧ s.id? = some id ∧ c.Registers s.version id ∧
    Schema.pending c.schemaVersion = [] ∧ ∀ writable, Opens writable (s.close f).2 s.version id c

variable {c : Container} {version : Int32} {id : StoreId}

lemma opens_of_registers (hc : c.Registers version id) (hv : Schema.expectedVersion ≤ version)
    (writable : Bool) : Opens writable (.container false c) version id c := by
  intro s entropy hs hvalid
  have hu : Upgrade.setUp writable entropy (.begin writable c) =
      .ok (version, id) (.begin writable c) := by
    cases writable with
    | false => exact Upgrade.validate_registered hc hv
    | true => exact Upgrade.upgrade_registered hc hv entropy
  have hcommit : (begin writable c).commit c = c := by cases writable <;> rfl
  rw [openFile_ok hs hvalid rfl hu, hcommit]

lemma refusesReaders_of_registers (hc : c.Registers version id)
    (hv : version < Schema.expectedVersion) : RefusesReaders (.container false c) version := by
  intro s entropy hs hvalid
  have hu : Upgrade.setUp false entropy (.begin false c) =
      .error (.schemaTooOld version Schema.expectedVersion) (.begin false c) :=
    Upgrade.validate_tooOld hc hv
  rw [openFile_error hs hvalid rfl hu, outcome_error]

variable {s s' : Store} {f f' : File} {entropy : Uuid}

lemma registers_of_openFile (h : openFile true entropy (s, f) = .ok () (s', f')) :
    ∃ c c' id, f.contents? true = .ok c ∧ f' = .container true c' ∧
      (s'.close f').2 = .container false c' ∧ s'.id? = some id ∧
      s'.version = Schema.reached c.schemaVersion ∧ c'.Registers s'.version id := by
  obtain ⟨-, -, c, version, id, t, hc, hu, rfl, rfl⟩ := of_openFile_ok h
  obtain ⟨hversion, hreg⟩ := Upgrade.upgrade_ok hu
  have ht : t.commit c = t.view := commit_eq_view (mode_setUp true entropy) hu
  exact ⟨c, t.commit c, id, hc, rfl, rfl, rfl, hversion, ht ▸ hreg⟩

theorem upToDate_iff_of_openFile (h : openFile true entropy (s, f) = .ok () (s', f')) :
    ∃ c c' id, f.contents? true = .ok c ∧ f' = .container true c' ∧ s'.id? = some id ∧
      s'.version = Schema.reached c.schemaVersion ∧ c'.Registers s'.version id ∧
      (s'.UpToDate f' ↔ 0 ≤ c.schemaVersion) ∧
      (c.schemaVersion < 0 → RefusesReaders (s'.close f').2 s'.version) := by
  obtain ⟨c, c', id, hc, rfl, hclose, hid, hversion, hreg⟩ := registers_of_openFile h
  refine ⟨c, c', id, hc, rfl, hid, hversion, hreg, ⟨fun hup => ?_, fun h0 => ?_⟩, fun h0 => ?_⟩
  · rw [← Schema.expectedVersion_le_reached_iff, ← hversion]
    exact hup.current
  · have hle : Schema.expectedVersion ≤ s'.version := by
      rwa [hversion, Schema.expectedVersion_le_reached_iff]
    refine ⟨hle, c', id, rfl, hid, hreg, ?_, ?_⟩
    · rw [hreg.schemaVersion, Schema.pending_eq_nil_iff]
      exact hle
    · rw [hclose]
      exact opens_of_registers hreg hle
  · rw [hclose]
    apply refusesReaders_of_registers hreg
    rw [hversion, ← Int32.not_le, Schema.expectedVersion_le_reached_iff, Int32.not_le]
    exact h0

def versionedAs (text : String) : Container :=
  { metadata := .stored (Rows.empty.insert ReservedKey.version.text text) }

theorem upToDate_iff_of_openFile_sample :
    ∃ s' f', openFile true .zero (create "chunks" {}, .container false (versionedAs "+1")) =
        .ok () (s', f') ∧ s'.version = 2 ∧ s'.UpToDate f' := by
  have h : openFile true .zero (create "chunks" {}, .container false (versionedAs "+1")) =
      .ok () _ := rfl
  obtain ⟨c, c', id, hc, -, -, hversion, -, hiff, -⟩ := upToDate_iff_of_openFile h
  obtain rfl : versionedAs "+1" = c := Except.ok.inj hc
  refine ⟨_, _, h, hversion.trans ?_, hiff.2 ?_⟩ <;> decide +kernel

/-- Counted up from -1, the version ends one short of what readers ask for. -/
theorem not_upToDate_of_negative :
    ∃ s' f', openFile true .zero (create "chunks" {}, .container false (versionedAs "-1")) =
        .ok () (s', f') ∧ s'.version = 1 ∧ ¬ Schema.expectedVersion ≤ s'.version ∧
      ¬ s'.UpToDate f' ∧
      outcome (openFile false .zero (create "chunks" {}, (s'.close f').2)) =
        .error (.schemaTooOld 1 2) := by
  have h : openFile true .zero (create "chunks" {}, .container false (versionedAs "-1")) =
      .ok () _ := rfl
  refine ⟨_, _, h, rfl, ?_, fun hup => absurd hup.current ?_, rfl⟩ <;> decide +kernel

end Store
end ChunkStore
