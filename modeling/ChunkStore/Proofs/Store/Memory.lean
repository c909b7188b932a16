import ChunkStore.Proofs.Store.Basic
import ChunkStore.Proofs.TrackList
import ChunkStore.Proofs.Transaction.Still
import ChunkStore.Proofs.Transaction.Tables
import ChunkStore.Store.Plain

namespace ChunkStore

open Attempt Transaction

structure Cache.Sound (k : Cache) (scope : StoreId) (c : Container) : Prop where
  byId : ∀ {id d}, k.byId.find? id = some d → d.persistedId = id ∧ c.Keeps scope d
  byContent : ∀ {bytes id}, k.byContent.find? bytes = some id →
    c.contents.rows.find? bytes = some id

namespace Cache

variable {k : Cache} {scope : StoreId} {c d : Container}

lemma sound_empty (capacity : Nat) (scope : StoreId) (c : Container) :
    (empty capacity).Sound scope c where
  byId h := by simp [empty] at h
  byContent h := by simp [empty] at h

lemma Sound.extend (h : k.Sound scope c) (hcd : c.Extends d) : k.Sound scope d where
  byId hd := ⟨(h.byId hd).1, (h.byId hd).2.extend hcd⟩
  byContent hb := hcd.contents (h.byContent hb)

lemma Sound.insert (h : k.Sound scope c) {bytes : Bytes} {e : Descriptor} (he : c.Keeps scope e)
    (hb : c.contents.rows.find? bytes = some e.persistedId) : (k.insert bytes e).Sound scope c := by
  have hk : (if k.isFull then k.clear else k).Sound scope c := by
    split
    · exact sound_empty _ _ _
    · exact h
  rw [Cache.insert]
  generalize (if k.isFull then k.clear else k) = k' at hk
  constructor
  · intro id d hd
    rw [Rows.find?_insert] at hd
    split at hd
    next hid =>
      obtain rfl : e = d := by simpa using hd
      exact ⟨hid.symm, he⟩
    · exact hk.byId hd
  · intro b id hid
    rw [Rows.find?_insert] at hid
    split at hid
    next hbb =>
      obtain rfl : e.persistedId = id := by simpa using hid
      rwa [hbb]
    · exact hk.byContent hid

end Cache

namespace Plain

variable {scope : StoreId} {t u : Transaction} {d e : Descriptor}

lemma resolve_of_keeps (h : t.view.Keeps scope d) : resolve scope d.persistedId t = .ok d t := by
  obtain ⟨hs, bytes, hb, hl⟩ := h
  have hd : Descriptor.decode bytes d.persistedId (some scope) = .ok d :=
    Descriptor.decode_eq_ok.2 ⟨hl, hs, rfl⟩
  rw [resolve, bind_ok (selectDescriptor_of_find? hb)]
  simp only [hd, ofExcept_ok]

lemma scope_forStore (d : Descriptor) (scope : StoreId) : (d.forStore scope).scope = some scope := by
  rw [Descriptor.forStore]
  split
  · assumption
  · rfl

/-- A descriptor that is said to be the store's is the one that it has under its number. -/
def Faithful (scope : StoreId) (d : Descriptor) (c : Container) : Prop :=
  d.scope = some scope → d.isPersisted = true → c.Holds d.persistedId d.toTrackList

lemma keeps_forStore (h : Faithful scope d t.view) (hp : (d.forStore scope).isPersisted = true) :
    t.view.Keeps scope (d.forStore scope) := by
  rw [Descriptor.forStore] at hp ⊢
  split at hp
  next hs =>
    rw [if_pos hs]
    exact ⟨hs, h hs hp⟩
  · simp [Descriptor.isPersisted] at hp

lemma intern_ok (h : intern scope d t = .ok e u) :
    (d.forStore scope).isPersisted = true ∧ d.forStore scope = e ∧ t = u ∨
      ∃ id, insertDescriptor (d.forStore scope).encode t = .ok id u ∧
        (d.forStore scope).withPersistedId id = e := by
  rw [intern] at h
  split at h
  next hp => exact .inl ⟨hp, of_pure_ok h⟩
  next hp => exact .inr (of_map_ok h)

lemma keeps_of_intern (hi : t.view.Inverse) (hd : Faithful scope d t.view)
    (h : intern scope d t = .ok e u) : u.view.Keeps scope e := by
  obtain ⟨hp, rfl, rfl⟩ | ⟨id, hins, rfl⟩ := intern_ok h
  · exact keeps_forStore hd hp
  · exact ⟨scope_forStore d scope, _, (find?_of_insertDescriptor hi hins).1,
      TrackList.decode_encode id _⟩

lemma data_resolve (scope : StoreId) (id : UInt64) : Respects SameData (resolve scope id) := by
  apply (opening_data.selectDescriptor id).bind
  intro row
  split
  · exact respects_throw _
  · exact respects_ofExcept _

lemma keeps_of_resolve {id : UInt64} (h : resolve scope id t = .ok d u) :
    d.persistedId = id ∧ u.view.Keeps scope d := by
  rw [resolve] at h
  obtain ⟨e, hsel⟩ | ⟨v, hsel, hv⟩ := selectDescriptor_cases id t
  · simp [bind_error hsel] at h
  · rw [bind_ok hsel] at h
    cases hb : t.view.descriptors.rows.find? id with
    | none => simp [hb, throw_run] at h
    | some bytes =>
      rw [hb] at h
      cases hd : Descriptor.decode bytes id (some scope) with
      | error e => simp [hd, ofExcept_error] at h
      | ok e =>
        obtain ⟨rfl, rfl⟩ : e = d ∧ v = u := by simpa [hd, ofExcept_ok] using h
        rw [Container.descriptors_congr hv.ids] at hb
        exact Container.keeps_of_decode hb hd

lemma grows_intern (scope : StoreId) (d : Descriptor) (hi : t.view.Inverse) :
    Numbers t.view (state (intern scope d t)).view := by
  rw [intern]
  split
  · exact numbers_of_data hi rfl
  · rw [state_map]
    exact insertDescriptor_numbers _ hi

end Plain

namespace Cache

variable {scope : StoreId}

def Fits (scope : StoreId) (s : Cache × Transaction) (t : Transaction) : Prop :=
  s.2 = t ∧ t.view.Inverse ∧ s.1.Sound scope t.view

lemma agree_get {k : Cache} {t : Transaction} (h : Fits scope (k, t) t) (id : UInt64) :
    Agree (Fits scope) (get scope id (k, t)) (Plain.resolve scope id t) := by
  obtain ⟨-, hi, hk⟩ := h
  simp only [get]
  cases hf : k.byId.find? id with
  | some d =>
    obtain ⟨rfl, hd⟩ := hk.byId hf
    rw [Plain.resolve_of_keeps hd]
    exact agree_ok d ⟨rfl, hi, hk⟩
  | none =>
    rw [Plain.resolve]
    obtain ⟨e, hsel⟩ | ⟨u, hsel, hu⟩ := selectDescriptor_cases id t
    · rw [bind_error hsel]
      simp only [hsel]
      exact agree_error e ⟨rfl, hi, hk⟩
    · have hu' := hi.congr hu.ids
      have hk' := hk.extend (Container.extends_of_ids hu.ids)
      rw [bind_ok hsel]
      simp only [hsel]
      cases hb : t.view.descriptors.rows.find? id with
      | none => exact agree_error _ ⟨rfl, hu', hk'⟩
      | some bytes =>
        rw [Container.descriptors_congr hu.ids] at hb
        cases hd : Descriptor.decode bytes id (some scope) with
        | error e =>
          simp only [hd]
          exact agree_error e ⟨rfl, hu', hk'⟩
        | ok d =>
          obtain ⟨rfl, hkeeps⟩ := Container.keeps_of_decode hb hd
          simp only [hd]
          exact agree_ok d ⟨rfl, hu', hk'.insert hkeeps ((hu' _ _).1 hb)⟩

lemma eq_of_findContent? {k : Cache} {t : Transaction} (h : Fits scope (k, t) t)
    {d e : Descriptor} (hf : k.findContent? (d.forStore scope).encode = some e) :
    t.view.contents.rows.find? (d.forStore scope).encode = some e.persistedId ∧
      e = (d.forStore scope).withPersistedId e.persistedId := by
  obtain ⟨-, hi, hk⟩ := h
  obtain ⟨id, hc, he⟩ := Option.bind_eq_some_iff.1 hf
  obtain ⟨rfl, hs, hl⟩ := hk.byId he
  have hb := hk.byContent hc
  have hd : t.view.Holds e.persistedId (d.forStore scope).toTrackList :=
    ⟨_, (hi _ _).2 hb, TrackList.decode_encode _ _⟩
  refine ⟨hb, ?_⟩
  obtain ⟨l, s, i⟩ := e
  obtain rfl : l = (d.forStore scope).toTrackList := hl.unique hd
  obtain rfl : s = some scope := hs
  rw [← Plain.scope_forStore d scope]
  rfl

lemma agree_intern {k : Cache} {t : Transaction} (h : Fits scope (k, t) t) (hw : t.writing = true)
    (d : Descriptor) : Agree (Fits scope) (intern scope d (k, t)) (Plain.intern scope d t) := by
  have hfits := h
  obtain ⟨-, hi, hk⟩ := h
  simp only [intern, Plain.intern]
  split
  · exact agree_ok _ hfits
  · cases hf : k.findContent? (d.forStore scope).encode with
    | some e =>
      obtain ⟨hb, he⟩ := eq_of_findContent? hfits hf
      rw [map_ok (insertDescriptor_of_find? hw hb), ← he]
      exact agree_ok e hfits
    | none =>
      have hgrow := insertDescriptor_numbers (d.forStore scope).encode hi
      cases hins : insertDescriptor (d.forStore scope).encode t with
      | error e u =>
        rw [hins] at hgrow
        rw [map_error hins]
        exact agree_error e ⟨rfl, hgrow.inverse, hk.extend hgrow.grows⟩
      | ok id u =>
        rw [hins] at hgrow
        obtain ⟨hb, hc⟩ := find?_of_insertDescriptor hi hins
        rw [map_ok hins]
        refine agree_ok _ ⟨rfl, hgrow.inverse, (hk.extend hgrow.grows).insert ?_ hc⟩
        exact ⟨Plain.scope_forStore d scope, _, hb, TrackList.decode_encode id _⟩

end Cache

namespace Session

variable {writable : Bool} {scope : StoreId} {s : Session} {c d : Container} {t : Transaction}

structure Sound (writable : Bool) (scope : StoreId) (s : Session) (c : Container) : Prop where
  inverse : c.Inverse
  writable_eq : s.writable = writable
  id_eq : s.id = scope
  cache : s.cache.Sound scope c
  recent : ∀ e ∈ s.recent, c.Keeps scope e

lemma sound_start (hi : c.Inverse) (writable : Bool) (scope : StoreId) (capacity : Nat) :
    (start writable scope capacity).Sound writable scope c where
  inverse := hi
  writable_eq := rfl
  id_eq := rfl
  cache := Cache.sound_empty _ _ _
  recent _ h := by cases h

lemma Sound.extend (h : s.Sound writable scope c) (hcd : c.Extends d) (hi : d.Inverse) :
    s.Sound writable scope d where
  inverse := hi
  writable_eq := h.writable_eq
  id_eq := h.id_eq
  cache := h.cache.extend hcd
  recent e he := (h.recent e he).extend hcd

lemma Sound.congr (h : s.Sound writable scope c) (hcd : c.ids = d.ids) : s.Sound writable scope d :=
  h.extend (Container.extends_of_ids hcd) (h.inverse.congr hcd)

lemma Sound.remember (h : s.Sound writable scope c) {e : Descriptor} (he : c.Keeps scope e) :
    { s with recent := some e }.Sound writable scope c where
  inverse := h.inverse
  writable_eq := h.writable_eq
  id_eq := h.id_eq
  cache := h.cache
  recent e' he' := by
    obtain rfl : e = e' := Option.some.inj he'
    exact he

def FitsTransaction (writable : Bool) (scope : StoreId) (s : Session × Transaction)
    (t : Transaction) : Prop :=
  s.2 = t ∧ s.1.Sound writable scope t.view

def FitsContainer (writable : Bool) (scope : StoreId) (s : Session × Container)
    (c : Container) : Prop :=
  s.2 = c ∧ s.1.Sound writable scope c

section

variable {α : Type}

lemma agree_inCache {x : Attempt (Cache × Transaction) α} {y : Attempt Transaction α}
    (hs : s.Sound writable scope t.view) (h : Agree (Cache.Fits scope) (x (s.cache, t)) (y t))
    (hgrow : t.view.Extends (state (y t)).view) :
    Agree (FitsTransaction writable scope) (inCache x (s, t)) (y t) := by
  obtain ⟨ho, ht, hi, hk⟩ := h
  refine ⟨?_, ?_, ?_⟩
  · rw [inCache, within_run, outcome_mapState, ho]
  · rw [inCache, within_run, state_mapState]
    exact ht
  · rw [inCache, within_run, state_mapState]
    exact ⟨hi, hs.writable_eq, hs.id_eq, hk, fun e he => (hs.recent e he).extend hgrow⟩

lemma agree_inTransaction {x : Attempt Transaction α} (hx : Respects SameIds x)
    (hs : s.Sound writable scope t.view) :
    Agree (FitsTransaction writable scope) (inTransaction x (s, t)) (x t) := by
  refine ⟨?_, ?_, ?_⟩
  · rw [inTransaction, within_run, outcome_mapState]
  · rw [inTransaction, within_run, state_mapState]
  · rw [inTransaction, within_run, state_mapState]
    exact hs.congr (hx t)

end

end Session
end ChunkStore
