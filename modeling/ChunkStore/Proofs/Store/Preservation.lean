import ChunkStore.Proofs.Store.Persistence
import ChunkStore.Proofs.Store.Reopen

namespace ChunkStore

open Attempt Transaction

def Container.Unidentifiable (c : Container) : Prop :=
  (∃ text flaw, c.metadata.rows.find? ReservedKey.id.text = some text ∧
    StoreId.read text = .error flaw) ∨
  c.metadata.rows.find? ReservedKey.id.text = none ∧ Schema.expectedVersion ≤ c.schemaVersion

namespace Upgrade

variable {writable : Bool} {entropy : Uuid} {t u : Transaction} {version : Int32} {id : StoreId}

lemma read_of_setUp (h : setUp writable entropy t = .ok (version, id) u) {text : String}
    (ht : t.view.metadata.rows.find? ReservedKey.id.text = some text) :
    StoreId.read text = .ok id := by
  cases writable with
  | false =>
    obtain ⟨-, hreg, -⟩ := validate_ok h
    obtain ⟨text', htext, hread⟩ := hreg.id
    obtain rfl := Option.some.inj (ht.symm.trans htext)
    exact hread
  | true =>
    obtain ⟨-, hreg⟩ := upgrade_ok h
    obtain ⟨text', htext, hread⟩ := hreg.id
    rw [(upgraded_of_upgrade h).id, ht] at htext
    obtain rfl := Option.some.inj htext
    exact hread

lemma not_unidentifiable_of_setUp (h : setUp writable entropy t = .ok (version, id) u) :
    ¬ t.view.Unidentifiable := by
  rintro (⟨text, flaw, htext, hflaw⟩ | ⟨hnone, hcurrent⟩)
  · rw [read_of_setUp h htext] at hflaw
    cases hflaw
  · cases writable with
    | false =>
      obtain ⟨-, hreg, -⟩ := validate_ok h
      obtain ⟨text, htext, -⟩ := hreg.id
      simp [hnone] at htext
    | true =>
      have hid := (upgraded_of_upgrade h).id
      rw [eq_of_upgrade hcurrent h, hnone] at hid
      cases hid

end Upgrade

namespace Store

variable {s s' : Store} {f f' : File} {writable : Bool} {entropy : Uuid}

lemma read_of_openFile (h : openFile writable entropy (s, f) = .ok () (s', f')) {text : String}
    (ht : f.inside.metadata.rows.find? ReservedKey.id.text = some text) :
    ∃ id, s'.id? = some id ∧ StoreId.read text = .ok id := by
  obtain ⟨-, -, c, version, id, t, hc, hu, rfl, rfl⟩ := of_openFile_ok h
  rw [File.inside_of_contents? hc] at ht
  exact ⟨id, rfl, Upgrade.read_of_setUp hu ht⟩

def Settles (s : Store) (f : File) (id : StoreId) : Prop :=
  ∀ w h, World.Run ⟨f, [s]⟩ w h → ∀ {u u' g writable entropy},
    openFile writable entropy (u, w.file) = .ok () (u', g) → u'.id? = some id

structure Preserves (c : Container) (entropy : Uuid) (s : Store) (f : File) : Prop where
  data : f.inside.data = c.data
  note : ∀ key, key ≠ ReservedKey.version.text → key ≠ ReservedKey.id.text →
    f.inside.metadata.rows.find? key = c.metadata.rows.find? key
  present : ∀ text, c.metadata.rows.find? ReservedKey.id.text = some text →
    f.inside.metadata.rows.find? ReservedKey.id.text = some text
  absent : c.metadata.rows.find? ReservedKey.id.text = none →
    s.id? = some (.fresh entropy) ∧ (StoreId.fresh entropy).uuid.version = 4
  settled : ∃ id, s.id? = some id ∧ s.Settles f id
  current : Schema.expectedVersion ≤ c.schemaVersion → f.inside = c

lemma settles_of_openFile (h : openFile writable entropy (s, f) = .ok () (s', f')) {id : StoreId}
    {text : String} (ht : f'.inside.metadata.rows.find? ReservedKey.id.text = some text)
    (hid : StoreId.read text = .ok id) : s'.Settles f' id := by
  obtain ⟨hs, -⟩ := of_openFile_ok h
  have hback := Operation.backed_openFile hs writable entropy f
  rw [h] at hback
  intro w hist hw u u' g writable' entropy' hu
  obtain ⟨-, hf⟩ := hw.follows (by simpa using hback)
  obtain ⟨id', hu', hread⟩ := read_of_openFile hu (hf.stays .id (by decide) text ht)
  obtain rfl := Except.ok.inj (hid.symm.trans hread)
  exact hu'

lemma preserves_of_openFile (h : openFile true entropy (s, f) = .ok () (s', f')) :
    Preserves f.inside entropy s' f' := by
  obtain ⟨-, -, c, version, id, t, hc, hu, rfl, rfl⟩ := of_openFile_ok h
  have hup := Upgrade.upgraded_of_setUp hu
  obtain ⟨-, hreg⟩ := Upgrade.upgrade_ok hu
  obtain ⟨text, htext, hread⟩ := hreg.id
  rw [← commit_eq_view (mode_setUp true entropy) hu, hup.id] at htext
  have hid : (t.commit c).metadata.rows.find? ReservedKey.id.text = some text := hup.id.trans htext
  rw [File.inside_of_contents? hc]
  refine ⟨hup.data, hup.rows, fun old hold => ?_, fun hnone => ?_,
    ⟨id, rfl, settles_of_openFile h hid hread⟩, hup.current⟩
  · rw [File.inside_container, hup.id, hold, Option.getD_some]
  · rw [hnone, Option.getD_none] at htext
    obtain rfl := Option.some.inj htext
    rw [StoreId.read_fresh] at hread
    obtain rfl := Except.ok.inj hread
    exact ⟨rfl, entropy.version_asRandom⟩

lemma openFile_of_reader {entropy' : Uuid} (h : openFile false entropy (s, f) = .ok () (s', f')) :
    ∃ u, openFile true entropy' (s, f) = .ok () (u, f') ∧ f'.inside = f.inside ∧ u.id? = s'.id? ∧
      u.version = s'.version := by
  obtain ⟨hs, hv, c, version, id, t, hc, hu, rfl, rfl⟩ := of_openFile_ok h
  obtain ⟨hcurrent, hreg, rfl⟩ := Upgrade.validate_ok hu
  obtain rfl := File.eq_of_reader hc
  exact ⟨_, opens_of_registers hreg hcurrent true s entropy' hs hv, rfl, rfl, rfl⟩

lemma openFile_unidentifiable (hf : f.inside.Unidentifiable) (writable : Bool) (entropy : Uuid)
    (s : Store) : ∃ e s' f', openFile writable entropy (s, f) = .error e (s', f') ∧
      f'.inside = f.inside := by
  by_cases hs : s.phase = .initial
  · obtain ⟨e, he⟩ | ⟨c, hc, ⟨e, t, -, he⟩ | ⟨version, id, t, hu, -⟩⟩ :=
      openFile_cases hs writable entropy f
    · exact ⟨e, _, _, he, rfl⟩
    · exact ⟨e, _, _, he, (File.inside_of_contents? hc).symm⟩
    · rw [File.inside_of_contents? hc] at hf
      exact absurd hf (Upgrade.not_unidentifiable_of_setUp hu)
  · exact ⟨_, _, _, openFile_again hs writable entropy f, rfl⟩

theorem openFile_preserves (s : Store) (f : File) (entropy : Uuid) :
    (∀ s' f', openFile true entropy (s, f) = .ok () (s', f') →
        Preserves f.inside entropy s' f') ∧
      (∀ s' f', openFile false entropy (s, f) = .ok () (s', f') → ∀ entropy',
        ∃ u, openFile true entropy' (s, f) = .ok () (u, f') ∧ f'.inside = f.inside ∧
          u.id? = s'.id? ∧ u.version = s'.version) ∧
      (f.inside.Unidentifiable → ∀ writable, ∃ e s' f',
        openFile writable entropy (s, f) = .error e (s', f') ∧ f'.inside = f.inside) :=
  ⟨fun _ _ => preserves_of_openFile, fun _ _ h _ => openFile_of_reader h,
    fun hf writable => openFile_unidentifiable hf writable entropy s⟩

def behind : Container where
  metadata := .stored ((versionedAs "1").metadata.rows.insert "owner" "me")
  chunks := .stored (Rows.empty.insert 3 ⟨9, [1]⟩)

theorem openFile_preserves_behind :
    ∃ s' f', openFile true .zero (create "chunks" {}, .container false behind) = .ok () (s', f') ∧
      f'.inside.data = behind.data ∧ f'.inside.metadata.rows.find? "owner" = some "me" ∧
      s'.id? = some (.fresh .zero) ∧ s'.Settles f' (.fresh .zero) := by
  have h : openFile true .zero (create "chunks" {}, .container false behind) = .ok () _ := rfl
  have hp := (openFile_preserves _ _ _).1 _ _ h
  have hid := (hp.absent (by decide +kernel)).1
  obtain ⟨id, hid', hsettles⟩ := hp.settled
  obtain rfl : StoreId.fresh .zero = id := Option.some.inj (hid.symm.trans hid')
  refine ⟨_, _, h, hp.data, ?_, hid, hsettles⟩
  rw [hp.note "owner" (by decide) (by decide)]
  decide +kernel

end Store
end ChunkStore
