import ChunkStore.Proofs.Chunk.Basic
import ChunkStore.Proofs.Chunk.Index

namespace ChunkStore.ChunkBuilder

def setAll : List (Int32 × FieldValue) → Attempt ChunkBuilder Unit
  | [] => pure ()
  | (id, v) :: rest => do
    set id v
    setAll rest

structure Assigns (d : Descriptor) (vs : List (Int32 × FieldValue)) : Prop where
  nodup : (vs.map Prod.fst).Nodup
  size_le : ∀ e ∈ vs, e.2.size ≤ maxIndexed
  takes : ∀ e ∈ vs, ∃ t, d.find? e.1 = some t ∧ t.Takes e.2

def fieldOf (vs : List (Int32 × FieldValue)) (t : Track) : Option EncodedField :=
  (vs.lookup t.id).bind fun v =>
    match t.encode v with
    | .ok data => some ⟨data, v.size⟩
    | .error _ => none

def holding (d : Descriptor) (timestamp : Option Int64) (vs : List (Int32 × FieldValue)) :
    ChunkBuilder :=
  ⟨d, timestamp, d.tracks.map (fieldOf vs)⟩

variable {d : Descriptor} {timestamp : Option Int64} {vs : List (Int32 × FieldValue)} {id : Int32}
  {v : FieldValue}

lemma empty_eq_holding (d : Descriptor) : empty d = holding d none [] := by
  have hnone : fieldOf [] = fun _ => none := rfl
  simp [empty, holding, hnone, TrackList.size]

lemma Assigns.append (h : Assigns d vs) {t : Track} (hfind : d.find? id = some t)
    (hnew : id ∉ vs.map Prod.fst) (hsize : v.size ≤ maxIndexed) (ht : t.Takes v) :
    Assigns d (vs ++ [(id, v)]) where
  nodup := by
    rw [List.map_append, List.nodup_append]
    refine ⟨h.nodup, by simp, ?_⟩
    rintro a ha b hb rfl
    obtain rfl : a = id := by simpa using hb
    exact hnew ha
  size_le e he := by
    rcases List.mem_append.1 he with he | he
    · exact h.size_le e he
    · obtain rfl : e = (id, v) := by simpa using he
      exact hsize
  takes e he := by
    rcases List.mem_append.1 he with he | he
    · exact h.takes e he
    · obtain rfl : e = (id, v) := by simpa using he
      exact ⟨t, hfind, ht⟩

lemma Assigns.of_append {ws : List (Int32 × FieldValue)} (h : Assigns d (vs ++ ws)) : Assigns d vs where
  nodup := (List.nodup_append.1 (List.map_append ▸ h.nodup)).1
  size_le e he := h.size_le e (by simp [he])
  takes e he := h.takes e (by simp [he])

lemma lookup_eq_none (h : id ∉ vs.map Prod.fst) : vs.lookup id = none := by
  apply List.lookup_eq_none_iff.2
  intro e he
  have hne : id ≠ e.1 := fun heq => h (heq ▸ List.mem_map_of_mem he)
  simpa using hne

lemma lookup_of_mem (h : (vs.map Prod.fst).Nodup) (hv : (id, v) ∈ vs) : vs.lookup id = some v := by
  obtain ⟨l, r, rfl⟩ := List.append_of_mem hv
  have hl : id ∉ l.map Prod.fst := by
    rw [List.map_append, List.nodup_append] at h
    exact fun hm => h.2.2 id hm id (by simp) rfl
  simp [List.lookup_append, lookup_eq_none hl]

lemma lookup_perm {ws : List (Int32 × FieldValue)} (h : vs.Perm ws) (hvs : (vs.map Prod.fst).Nodup) (id : Int32) :
    vs.lookup id = ws.lookup id := by
  have hws : (ws.map Prod.fst).Nodup := (h.map Prod.fst).nodup_iff.1 hvs
  by_cases hid : id ∈ vs.map Prod.fst
  · obtain ⟨⟨_, v⟩, hv, rfl⟩ := List.mem_map.1 hid
    rw [lookup_of_mem hvs hv, lookup_of_mem hws (h.mem_iff.1 hv)]
  · rw [lookup_eq_none hid, lookup_eq_none fun hid' => hid ((h.map Prod.fst).mem_iff.2 hid')]

lemma fieldOf_perm {ws : List (Int32 × FieldValue)} (h : vs.Perm ws) (hvs : (vs.map Prod.fst).Nodup) : fieldOf vs = fieldOf ws := by
  funext t
  rw [fieldOf, fieldOf, lookup_perm h hvs]

lemma Assigns.perm {ws : List (Int32 × FieldValue)} (h : Assigns d vs) (hp : vs.Perm ws) : Assigns d ws where
  nodup := (hp.map Prod.fst).nodup_iff.1 h.nodup
  size_le e he := h.size_le e (hp.mem_iff.2 he)
  takes e he := h.takes e (hp.mem_iff.2 he)

lemma fieldOf_of_mem (h : Assigns d vs) {t : Track} (hv : (t.id, v) ∈ vs) (ht : t ∈ d.tracks) :
    ∃ data, t.encode v = .ok data ∧ fieldOf vs t = some ⟨data, v.size⟩ := by
  obtain ⟨u, hu, htakes⟩ := h.takes _ hv
  obtain rfl : t = u := by
    have := TrackList.find?_of_mem ht
    simpa [this] using hu
  obtain ⟨data, hdata⟩ := Track.encode_ok_iff.2 htakes
  exact ⟨data, hdata, by simp [fieldOf, lookup_of_mem h.nodup hv, hdata]⟩

lemma fieldOf_eq_none {t : Track} (h : t.id ∉ vs.map Prod.fst) : fieldOf vs t = none := by
  simp [fieldOf, lookup_eq_none h]

lemma fieldOf_append (t : Track) (hnew : id ∉ vs.map Prod.fst) :
    fieldOf (vs ++ [(id, v)]) t = if t.id = id then fieldOf [(id, v)] t else fieldOf vs t := by
  split
  next ht => simp [fieldOf, List.lookup_append, ht, lookup_eq_none hnew]
  next ht =>
    have hlast : [(id, v)].lookup t.id = none := by simp [ht]
    simp [fieldOf, List.lookup_append, hlast]

lemma set_run {b : ChunkBuilder} {t : Track} {i : Nat} (hfind : b.descriptor.find? id = some t)
    (hi : b.descriptor.indexOf? id = some i) :
    set id v b =
      if (b.fields.getD i none).isSome then .error (.duplicateField id) b
      else if maxIndexed < v.size then .error (.invalidArgument (.tooManyElements id v.size)) b
      else
        match t.encode v with
        | .ok data => .ok () { b with fields := b.fields.set i (some ⟨data, v.size⟩) }
        | .error e => .error e b := by
  cases hv : t.encode v with
  | ok data => simp only [set, hfind, hi, hv]
  | error e => simp only [set, hfind, hi, hv]

lemma getD_holding {t : Track} {i : Nat} (ht : d.tracks[i]? = some t) :
    (holding d timestamp vs).fields.getD i none = fieldOf vs t := by
  simp [holding, List.getD_eq_getElem?_getD, ht]

lemma set_holding {t : Track} (hfind : d.find? id = some t) (hnew : id ∉ vs.map Prod.fst)
    (hsize : v.size ≤ maxIndexed) (ht : t.Takes v) :
    set id v (holding d timestamp vs) = .ok () (holding d timestamp (vs ++ [(id, v)])) := by
  obtain ⟨i, hi, hti⟩ := TrackList.indexOf?_of_find? hfind
  obtain ⟨data, hdata⟩ := Track.encode_ok_iff.2 ht
  have hid : t.id = id := TrackList.id_of_find? hfind
  have hfields : (d.tracks.map (fieldOf vs)).set i (some ⟨data, v.size⟩) =
      d.tracks.map (fieldOf (vs ++ [(id, v)])) := by
    apply List.ext_getElem?
    intro j
    rw [List.getElem?_set, List.getElem?_map, List.getElem?_map, List.length_map]
    split
    next hij =>
      subst hij
      obtain ⟨hlt, -⟩ := List.getElem?_eq_some_iff.1 hti
      rw [if_pos hlt, hti, Option.map_some, fieldOf_append t hnew, if_pos hid]
      simp [fieldOf, hid, hdata]
    next hij =>
      cases htj : d.tracks[j]? with
      | none => rfl
      | some u =>
        have hu : u.id ≠ id := by
          rintro rfl
          have hj := TrackList.indexOf?_of_getElem? htj
          exact hij (Option.some.inj (hi.symm.trans hj))
        rw [Option.map_some, Option.map_some, fieldOf_append u hnew, if_neg hu]
  rw [set_run (b := holding d timestamp vs) hfind hi, getD_holding hti,
    fieldOf_eq_none (hid ▸ hnew), if_neg (by simp), if_neg (by omega), hdata]
  simp only [holding, hfields]

lemma of_set_holding (h : Assigns d vs) {b : ChunkBuilder}
    (hset : set id v (holding d timestamp vs) = .ok () b) : Assigns d (vs ++ [(id, v)]) := by
  cases hfind : d.find? id with
  | none => simp [set, holding, hfind] at hset
  | some t =>
    obtain ⟨i, hi, hti⟩ := TrackList.indexOf?_of_find? hfind
    have hid : t.id = id := TrackList.id_of_find? hfind
    rw [set_run (b := holding d timestamp vs) hfind hi, getD_holding hti] at hset
    split at hset
    · cases hset
    next hfree =>
      split at hset
      · cases hset
      next hsize =>
        split at hset
        next data hdata =>
          refine h.append hfind (fun hmem => ?_) (by omega) (Track.encode_ok_iff.1 ⟨data, hdata⟩)
          obtain ⟨⟨a, w⟩, hw, rfl⟩ := List.mem_map.1 hmem
          subst hid
          obtain ⟨data, -, hf⟩ := fieldOf_of_mem h hw (List.mem_of_getElem? hti)
          exact hfree (by simp [hf])
        · cases hset

lemma setAll_holding (ws : List (Int32 × FieldValue)) : ∀ vs, Assigns d (vs ++ ws) →
    setAll ws (holding d timestamp vs) = .ok () (holding d timestamp (vs ++ ws)) := by
  induction ws with
  | nil =>
    intro vs _
    rw [List.append_nil]
    rfl
  | cons e ws ih =>
    intro vs h
    rw [List.append_cons] at h
    obtain ⟨t, hfind, ht⟩ := h.takes e (by simp)
    have hnew : e.1 ∉ vs.map Prod.fst := by
      have hn := h.of_append.nodup
      rw [List.map_append, List.nodup_append] at hn
      exact fun hm => hn.2.2 _ hm _ (by simp) rfl
    have hset : set e.1 e.2 (holding d timestamp vs) = .ok () (holding d timestamp (vs ++ [e])) :=
      set_holding hfind hnew (h.size_le e (by simp)) ht
    rw [setAll, Attempt.bind_ok hset, ih _ h, ← List.append_cons]

lemma eq_of_set_holding (h : Assigns d vs) {b : ChunkBuilder}
    (hset : set id v (holding d timestamp vs) = .ok () b) :
    b = holding d timestamp (vs ++ [(id, v)]) := by
  have hrun : setAll [(id, v)] (holding d timestamp vs) = .ok () (holding d timestamp (vs ++ [(id, v)])) :=
    setAll_holding [(id, v)] vs (of_set_holding h hset)
  rw [setAll, Attempt.bind_ok hset] at hrun
  simpa [setAll, Attempt.pure_run] using hrun

lemma of_setAll_holding (ws : List (Int32 × FieldValue)) : ∀ {vs : List (Int32 × FieldValue)}
    {b : ChunkBuilder}, Assigns d vs → setAll ws (holding d timestamp vs) = .ok () b →
    Assigns d (vs ++ ws) := by
  induction ws with
  | nil =>
    intro vs b h _
    rwa [List.append_nil]
  | cons e ws ih =>
    intro vs b h hset
    cases he : set e.1 e.2 (holding d timestamp vs) with
    | error err b' =>
      rw [setAll, Attempt.bind_error he] at hset
      cases hset
    | ok u b' =>
      obtain rfl := eq_of_set_holding h he
      rw [setAll, Attempt.bind_ok he] at hset
      rw [List.append_cons]
      exact ih (of_set_holding h he) hset

end ChunkStore.ChunkBuilder
