import ChunkStore.Cache
import ChunkStore.Proofs.Attempt
import ChunkStore.Proofs.Container

namespace ChunkStore.Cache

open Attempt

inductive Call where
  | get (scope : StoreId) (id : UInt64)
  | intern (scope : StoreId) (d : Descriptor)
  | clear

def Call.run : Call → Attempt (Cache × Transaction) (Option Descriptor)
  | get scope id => some <$> Cache.get scope id
  | intern scope d => some <$> Cache.intern scope d
  | clear => fun (k, t) => .ok none (k.clear, t)

def runAll (uses : List (Call × Transaction)) (k : Cache) : Cache :=
  uses.foldl (fun k use => (state (use.1.run (k, use.2))).1) k

structure Consistent (k : Cache) : Prop where
  size_le : k.capacity ≠ 0 → k.size ≤ k.capacity
  byId : ∀ {id d}, k.byId.find? id = some d → d.persistedId = id
  byContent : ∀ {bytes id}, k.byContent.find? bytes = some id → ∃ d, k.byId.find? id = some d

variable {α β : Type} {k : Cache} {t : Transaction}

inductive Ends (k : Cache) : EStateM.Result Error (Cache × Transaction) α → Prop
  | keeps (a : α) (t : Transaction) : Ends k (.ok a (k, t))
  | learns (a : α) (bytes : Bytes) (d : Descriptor) (t : Transaction) :
    Ends k (.ok a (k.insert bytes d, t))
  | clears (a : α) (t : Transaction) : Ends k (.ok a (k.clear, t))
  | fails (e : Error) (t : Transaction) : Ends k (.error e (k, t))

lemma Ends.map {x : Attempt (Cache × Transaction) α} {s : Cache × Transaction} (h : Ends k (x s))
    (f : α → β) : Ends k ((f <$> x) s) := by
  cases hx : x s with
  | ok a u =>
    rw [hx] at h
    rw [map_ok hx]
    cases h with
    | keeps => exact .keeps _ _
    | learns => exact .learns _ _ _ _
    | clears => exact .clears _ _
  | error e u =>
    rw [hx] at h
    rw [map_error hx]
    cases h
    exact .fails _ _

lemma ends_get (scope : StoreId) (id : UInt64) : Ends k (get scope id (k, t)) := by
  simp only [get]
  split
  · exact .keeps _ _
  · split
    · exact .fails _ _
    · exact .fails _ _
    · split
      · exact .fails _ _
      · exact .learns _ _ _ _

lemma ends_intern (scope : StoreId) (d : Descriptor) : Ends k (intern scope d (k, t)) := by
  simp only [intern]
  split
  · exact .keeps _ _
  · split
    · exact .keeps _ _
    · split
      · exact .fails _ _
      · exact .learns _ _ _ _

lemma ends_call (call : Call) : Ends k (call.run (k, t)) := by
  cases call with
  | get scope id => exact (ends_get scope id).map some
  | intern scope d => exact (ends_intern scope d).map some
  | clear => exact .clears _ _

lemma consistent_empty (capacity : Nat) : (empty capacity).Consistent where
  size_le _ := Nat.zero_le _
  byId h := by cases h
  byContent h := by cases h

lemma Consistent.insert_room (hk : k.Consistent) (hroom : k.isFull = false) (bytes : Bytes)
    (d : Descriptor) : (k.insert bytes d).Consistent := by
  rw [insert, hroom]
  constructor
  · intro hc
    have hlt : ¬ k.capacity = 0 → k.size < k.capacity := by simpa [isFull] using hroom
    exact Nat.le_trans (Rows.size_insert_le k.byId d.persistedId d) (hlt hc)
  · intro id e he
    change (k.byId.insert d.persistedId d).find? id = some e at he
    rw [Rows.find?_insert] at he
    split at he
    next hid =>
      obtain rfl := Option.some.inj he
      exact hid.symm
    next => exact hk.byId he
  · intro b id hb
    change (k.byContent.insert bytes d.persistedId).find? b = some id at hb
    change ∃ e, (k.byId.insert d.persistedId d).find? id = some e
    rw [Rows.find?_insert] at hb ⊢
    by_cases hid : id = d.persistedId
    · exact ⟨d, if_pos hid⟩
    · rw [if_neg hid]
      split at hb
      next => exact absurd (Option.some.inj hb).symm hid
      next => exact hk.byContent hb

lemma insert_full (hfull : k.isFull = true) (bytes : Bytes) (d : Descriptor) :
    k.insert bytes d = k.clear.insert bytes d := by
  have hempty : k.clear.isFull = false := by simp [clear, isFull, empty, size, Rows.empty, Rows.size]
  simp [insert, hfull, hempty]

lemma Consistent.insert (hk : k.Consistent) (bytes : Bytes) (d : Descriptor) :
    (k.insert bytes d).Consistent := by
  cases hfull : k.isFull with
  | false => exact hk.insert_room hfull bytes d
  | true =>
    rw [insert_full hfull]
    refine (consistent_empty k.capacity).insert_room ?_ bytes d
    simp [isFull, empty, size, Rows.empty, Rows.size]

lemma capacity_insert (k : Cache) (bytes : Bytes) (d : Descriptor) :
    (k.insert bytes d).capacity = k.capacity := by
  cases hfull : k.isFull <;> simp [Cache.insert, hfull, clear, empty]

lemma Consistent.call (hk : k.Consistent) (call : Call) (t : Transaction) :
    (state (call.run (k, t))).1.Consistent ∧ (state (call.run (k, t))).1.capacity = k.capacity := by
  have hends : Ends k (call.run (k, t)) := ends_call call
  generalize call.run (k, t) = r at hends
  cases hends with
  | keeps => exact ⟨hk, rfl⟩
  | learns _ bytes d => exact ⟨hk.insert bytes d, capacity_insert k bytes d⟩
  | clears => exact ⟨consistent_empty _, rfl⟩
  | fails => exact ⟨hk, rfl⟩

lemma Consistent.runAll (hk : k.Consistent) (uses : List (Call × Transaction)) :
    (runAll uses k).Consistent ∧ (runAll uses k).capacity = k.capacity := by
  induction uses generalizing k with
  | nil => exact ⟨hk, rfl⟩
  | cons use uses ih =>
    obtain ⟨hnext, hcapacity⟩ := hk.call use.1 use.2
    obtain ⟨hrest, hrest'⟩ := ih hnext
    exact ⟨hrest, hrest'.trans hcapacity⟩

lemma find?_insert_self (k : Cache) (bytes : Bytes) (d : Descriptor) :
    (k.insert bytes d).byId.find? d.persistedId = some d := Rows.find?_insert_self _ _ _

lemma findContent?_insert_self (k : Cache) (bytes : Bytes) (d : Descriptor) :
    (k.insert bytes d).findContent? bytes = some d := by
  have hbytes : (k.insert bytes d).byContent.find? bytes = some d.persistedId :=
    Rows.find?_insert_self _ _ _
  rw [findContent?, hbytes, Option.bind_some, find?_insert_self]

lemma find?_of_get {scope : StoreId} {id : UInt64} {d : Descriptor} {k' : Cache} {u : Transaction}
    (h : get scope id (k, t) = .ok d (k', u)) : k'.byId.find? id = some d := by
  simp only [get] at h
  split at h
  next hd =>
    cases h
    exact hd
  next =>
    split at h
    · cases h
    · cases h
    · split at h
      · cases h
      next hdecode =>
        cases h
        obtain rfl := (Descriptor.decode_eq_ok.1 hdecode).2.2
        exact find?_insert_self _ _ _

lemma findContent?_of_intern {scope : StoreId} {d e : Descriptor} {k' : Cache} {u : Transaction}
    (h : intern scope d (k, t) = .ok e (k', u)) :
    (d.forStore scope).isPersisted = true ∧ e = d.forStore scope ∨
      k'.findContent? (d.forStore scope).encode = some e := by
  simp only [intern] at h
  split at h
  next hp =>
    cases h
    exact .inl ⟨hp, rfl⟩
  next =>
    split at h
    next hfound =>
      cases h
      exact .inr hfound
    next =>
      split at h
      · cases h
      · cases h
        exact .inr (findContent?_insert_self _ _ _)

theorem bounded_and_paired (capacity : Nat) (uses : List (Call × Transaction)) :
    (capacity ≠ 0 → (runAll uses (empty capacity)).size ≤ capacity) ∧
      (∀ id d, (runAll uses (empty capacity)).byId.find? id = some d → d.persistedId = id) ∧
      (∀ bytes id, (runAll uses (empty capacity)).byContent.find? bytes = some id →
        ∃ d, (runAll uses (empty capacity)).byId.find? id = some d ∧
          (runAll uses (empty capacity)).findContent? bytes = some d) ∧
      (∀ call t e k u, Call.run call (runAll uses (empty capacity), t) = .error e (k, u) →
        k = runAll uses (empty capacity)) ∧
      (∀ scope id t d k u, get scope id (runAll uses (empty capacity), t) = .ok d (k, u) →
        k.byId.find? id = some d) ∧
      ∀ scope d t e k u, intern scope d (runAll uses (empty capacity), t) = .ok e (k, u) →
        (d.forStore scope).isPersisted = true ∧ e = d.forStore scope ∨
          k.findContent? (d.forStore scope).encode = some e := by
  obtain ⟨hk, hcapacity⟩ := (consistent_empty capacity).runAll uses
  refine ⟨fun hc => ?_, fun id d => hk.byId, fun bytes id hb => ?_, fun call t e k u hrun => ?_,
    fun scope id t d k u => find?_of_get, fun scope d t e k u => findContent?_of_intern⟩
  · have hsize := hk.size_le
    rw [hcapacity] at hsize
    exact hsize hc
  · obtain ⟨d, hd⟩ := hk.byContent hb
    exact ⟨d, hd, by rw [findContent?, hb, Option.bind_some, hd]⟩
  · have hends : Ends _ (Call.run call (runAll uses (empty capacity), t)) := ends_call call
    rw [hrun] at hends
    cases hends
    rfl

def sampleBinary : Descriptor where
  tracks := [⟨8, .binary⟩]
  ascending := by decide
  length_lt := by decide
  scope := none
  persistedId := 0

def sampleText : Descriptor where
  tracks := [⟨8, .text⟩]
  ascending := by decide
  length_lt := by decide
  scope := none
  persistedId := 0

def sampleScope : StoreId := .fresh ⟨List.replicate 32 ⟨9, by decide⟩, rfl⟩

def sampleUses : List (Call × Transaction) :=
  [(.intern sampleScope sampleBinary, .begin true .empty),
    (.intern sampleScope sampleText, .begin true .empty), (.get sampleScope 7, .begin false .empty)]

theorem bounded_and_paired_sample :
    2 ≠ 0 ∧ (runAll sampleUses (empty 2)).size ≤ 2 ∧
      (runAll sampleUses (empty 2)).byContent.find? sampleBinary.encode = some 1 ∧
      (∃ d, (runAll sampleUses (empty 2)).findContent? sampleBinary.encode = some d ∧
        d.persistedId = 1) ∧
      ∃ e k u, Call.run (.get sampleScope 7) (runAll sampleUses (empty 2), .begin false .empty) =
        .error e (k, u) ∧ k = runAll sampleUses (empty 2) := by
  obtain ⟨hsize, hid, hcontent, hfails, -⟩ := bounded_and_paired 2 sampleUses
  have hhit : (runAll sampleUses (empty 2)).byContent.find? sampleBinary.encode = some 1 := by
    decide +kernel
  have herror : (outcome (Call.run (.get sampleScope 7)
      (runAll sampleUses (empty 2), .begin false .empty))).toOption = none := by decide +kernel
  obtain ⟨d, hd, hfound⟩ := hcontent _ _ hhit
  refine ⟨by decide, hsize (by decide), hhit, ⟨d, hfound, hid 1 d hd⟩, ?_⟩
  cases hrun : Call.run (.get sampleScope 7) (runAll sampleUses (empty 2), .begin false .empty) with
  | ok a s =>
    rw [hrun] at herror
    cases herror
  | error e s => exact ⟨e, s.1, s.2, rfl, hfails _ _ _ _ _ hrun⟩

end ChunkStore.Cache
