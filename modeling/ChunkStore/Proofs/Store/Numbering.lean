import ChunkStore.Proofs.TrackList
import ChunkStore.Proofs.Transaction.Tables
import ChunkStore.Store.History
import Mathlib.Data.List.Dedup

namespace ChunkStore

namespace History

/-- The track lists that were put, each once, the one that was put first in front. (The history has
the latest event in front, and `dedup` keeps the last of equal elements.) -/
def trackLists (h : History) : List TrackList := (h.stored.map Stored.tracks).dedup.reverse

def numbering (h : History) : List (UInt64 × Bytes) :=
  h.trackLists.mapIdx fun i l => (UInt64.ofNat (i + 1), l.encode)

variable {h h' : History} {e : Event} {x : Stored}

lemma stored_quiet (hs : e.stored? = none) (h : History) : stored (e :: h) = h.stored := by
  simp [stored, hs]

lemma stored_put (hx : e.stored? = some x) (h : History) : stored (e :: h) = x :: h.stored := by
  simp [stored, hx]

lemma mem_trackLists {l : TrackList} : l ∈ h.trackLists ↔ ∃ x ∈ h.stored, x.tracks = l := by
  simp [trackLists]

lemma nodup_trackLists (h : History) : h.trackLists.Nodup :=
  List.nodup_reverse.2 (List.nodup_dedup _)

lemma trackLists_quiet (hs : e.stored? = none) : trackLists (e :: h) = h.trackLists := by
  rw [trackLists, stored_quiet hs, trackLists]

lemma trackLists_put (hx : e.stored? = some x) : trackLists (e :: h) =
    if x.tracks ∈ h.trackLists then h.trackLists else h.trackLists ++ [x.tracks] := by
  have hmem : x.tracks ∈ h.trackLists ↔ x.tracks ∈ h.stored.map Stored.tracks := by simp [trackLists]
  rw [trackLists, stored_put hx, List.map_cons]
  by_cases hm : x.tracks ∈ h.trackLists
  · rw [if_pos hm, List.dedup_cons_of_mem (hmem.1 hm), trackLists]
  · rw [if_neg hm, List.dedup_cons_of_notMem (mt hmem.2 hm), List.reverse_cons, trackLists]

lemma prefix_trackLists_cons (e : Event) (h : History) : h.trackLists <+: trackLists (e :: h) := by
  cases hs : e.stored? with
  | none => exact trackLists_quiet hs ▸ List.prefix_rfl
  | some x =>
    rw [trackLists_put hs]
    split
    · exact List.prefix_rfl
    · exact List.prefix_append _ _

lemma prefix_trackLists (hs : h <:+ h') : h.trackLists <+: h'.trackLists := by
  obtain ⟨k, rfl⟩ := hs
  induction k with
  | nil => exact List.prefix_rfl
  | cons e k ih => exact ih.trans (prefix_trackLists_cons e _)

lemma prefix_numbering (hs : h <:+ h') : h.numbering <+: h'.numbering := by
  obtain ⟨k, hk⟩ := prefix_trackLists hs
  rw [numbering, numbering, ← hk, List.mapIdx_append]
  exact List.prefix_append _ _

lemma mem_numbering {id : UInt64} {bytes : Bytes} : (id, bytes) ∈ h.numbering ↔
    ∃ i l, h.trackLists[i]? = some l ∧ UInt64.ofNat (i + 1) = id ∧ l.encode = bytes := by
  simp only [numbering, List.mem_iff_getElem?, List.getElem?_mapIdx, Option.map_eq_some_iff,
    Prod.mk.injEq]

lemma toNat_number {i : Nat} {l : TrackList} (hlt : h.trackLists.length < UInt64.size)
    (hi : h.trackLists[i]? = some l) : (UInt64.ofNat (i + 1)).toNat = i + 1 := by
  obtain ⟨hlen, -⟩ := List.getElem?_eq_some_iff.1 hi
  exact UInt64.toNat_ofNat_of_lt' (by omega)

lemma number_inj (hlt : h.trackLists.length < UInt64.size) {i j : Nat} {l m : TrackList}
    (hi : h.trackLists[i]? = some l) (hj : h.trackLists[j]? = some m) :
    UInt64.ofNat (i + 1) = UInt64.ofNat (j + 1) ↔ l = m := by
  constructor
  · intro hij
    have hn := congrArg UInt64.toNat hij
    rw [toNat_number hlt hi, toNat_number hlt hj] at hn
    obtain rfl : i = j := by omega
    exact Option.some.inj (hi.symm.trans hj)
  · rintro rfl
    obtain ⟨hlen, -⟩ := List.getElem?_eq_some_iff.1 hi
    rw [(List.getElem?_inj hlen h.nodup_trackLists).1 (hi.trans hj.symm)]

end History

namespace Transaction

variable {rows : Rows UInt64 Bytes} {h : History}

lemma nextId_of_numbering (hr : rows.entries = h.numbering) :
    nextId rows = UInt64.ofNat (h.trackLists.length + 1) := by
  rw [nextId, Rows.last?, hr, History.numbering]
  obtain hnil | ⟨ls, l, hcons⟩ := h.trackLists.eq_nil_or_concat
  · rw [hnil]
    rfl
  · rw [hcons, List.concat_eq_append, List.mapIdx_concat, List.getLast?_concat, List.length_append]
    exact (UInt64.ofNat_add _ 1).symm

lemma lt_nextId (hr : rows.entries = h.numbering) (hlt : h.trackLists.length + 1 < UInt64.size) :
    ∀ e ∈ rows.entries, e.1 < nextId rows := by
  intro e he
  rw [hr] at he
  obtain ⟨i, l, hi, hid, -⟩ := History.mem_numbering.1 he
  obtain ⟨hlen, -⟩ := List.getElem?_eq_some_iff.1 hi
  rw [nextId_of_numbering hr, ← hid, UInt64.lt_iff_toNat_lt,
    History.toNat_number (Nat.lt_of_succ_lt hlt) hi, UInt64.toNat_ofNat_of_lt' hlt]
  exact Nat.succ_lt_succ hlen

lemma numbering_insert (hr : rows.entries = h.numbering)
    (hlt : h.trackLists.length + 1 < UInt64.size) {e : Event} {x : Stored} (hx : e.stored? = some x)
    (hm : x.tracks ∉ h.trackLists) :
    (rows.insert (nextId rows) x.tracks.encode).entries = History.numbering (e :: h) := by
  change Rows.insertEntry _ _ rows.entries = _
  rw [Rows.insertEntry_last _ (lt_nextId hr hlt), nextId_of_numbering hr, hr, History.numbering,
    History.numbering, History.trackLists_put hx, if_neg hm, List.mapIdx_concat]

end Transaction
end ChunkStore
