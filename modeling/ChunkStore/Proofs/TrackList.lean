import ChunkStore.Proofs.Codec
import ChunkStore.TrackList
import Mathlib.Data.List.Nodup
import Mathlib.Data.List.Sort

namespace ChunkStore

lemma Bytes.word?_append {bs rest : Bytes} {n : Nat} (h : Bytes.word? bs = some (n, rest)) (tail : Bytes) :
    Bytes.word? (bs ++ tail) = some (n, rest ++ tail) := by
  obtain ⟨hlt, rfl⟩ := Bytes.eq_ofWord_of_word? h
  rw [List.append_assoc, Bytes.word?_ofWord_append hlt]

namespace TrackList

lemma ofTags_map (label : UInt64) (ts : List Track) : ∀ previous : Option Int32,
    ts.Pairwise (fun a b => a.id < b.id) → (∀ p ∈ previous, ∀ t ∈ ts, p < t.id) →
    ofTags label previous (ts.map fun t => (t.id, t.encoding.tag)) = .ok ts := by
  induction ts with
  | nil => intros; rfl
  | cons t ts ih =>
    intro previous hs hp
    obtain ⟨ht, hs⟩ := List.pairwise_cons.1 hs
    have hfilter : previous.filter (t.id ≤ ·) = none := by
      cases previous with
      | none => rfl
      | some p =>
        have hlt := hp p rfl t (by simp)
        simpa [Option.filter] using hlt
    have hrest := ih (some t.id) hs (by simpa using ht)
    simp only [List.map_cons, ofTags, hfilter, Encoding.ofTag?_tag, hrest]

theorem decode_eq_ok_iff {label : UInt64} {bs : Bytes} {l : TrackList} :
    decode label bs = .ok l ↔ ∃ rest mid, Bytes.word? bs = some (l.size, rest) ∧
      Codec.delta.split rest l.size = .ok (l.tracks.map Track.id, mid) ∧
        Codec.plain.split mid l.size = .ok (l.tracks.map fun t => t.encoding.tag, []) := by
  constructor
  · intro h
    rw [decode] at h
    split at h
    · cases h
    next count rest hw =>
      split at h
      · cases h
      next ids mid hi =>
        split at h
        · cases h
        next tags last ht =>
          split at h
          · cases h
          next hlast =>
            obtain rfl : last = [] := by simpa using hlast
            split at h
            · cases h
            next ts hts =>
              obtain rfl := Except.ok.inj h
              have hids := Codec.length_of_split hi
              have htags := Codec.length_of_split ht
              have hrows := (ofTags_ok hts).1
              have hid : ts.map Track.id = ids := by
                have hfst := congrArg (List.map Prod.fst) hrows
                rw [List.map_fst_zip (by omega), List.map_map] at hfst
                exact hfst
              have htag : (ts.map fun t => t.encoding.tag) = tags := by
                have hsnd := congrArg (List.map Prod.snd) hrows
                rw [List.map_snd_zip (by omega), List.map_map] at hsnd
                exact hsnd
              obtain rfl : count = ts.length := by rw [← hids, ← hid, List.length_map]
              exact ⟨rest, mid, hw, by rwa [hid], by rwa [htag]⟩
  · rintro ⟨rest, mid, hword, hids, htags⟩
    have hlist := ofTags_map label l.tracks none l.ascending (by simp)
    rw [← List.zip_map'] at hlist
    rw [decode]
    split
    next hw => simp [hword] at hw
    next count rest hw =>
      obtain ⟨rfl, rfl⟩ : l.size = count ∧ _ = rest := by simpa [hword] using hw
      split
      next hi => simp [hids] at hi
      next ids mid hi =>
        obtain ⟨rfl, rfl⟩ : _ = ids ∧ _ = mid := by simpa [hids] using hi
        split
        next hp => simp [htags] at hp
        next tags last hp =>
          obtain ⟨rfl, rfl⟩ : _ = tags ∧ [] = last := by simpa [htags] using hp
          rw [if_neg (by simp)]
          split
          next ht => simp [hlist] at ht
          next ts ht =>
            obtain rfl : l.tracks = ts := by simpa [hlist] using ht
            rfl

theorem decode_encode (label : UInt64) (l : TrackList) : decode label l.encode = .ok l := by
  have hids := Codec.delta.split_compress_append (l.tracks.map Track.id)
    (Codec.plain.compress (l.tracks.map fun t => t.encoding.tag))
  have htags := Codec.plain.split_compress_append (l.tracks.map fun t => t.encoding.tag) []
  rw [List.length_map] at hids htags
  rw [List.append_nil] at htags
  refine decode_eq_ok_iff.2 ⟨_, _, ?_, hids, htags⟩
  rw [encode, List.append_assoc, Bytes.word?_ofWord_append (by exact l.length_lt)]

theorem encode_injective {l m : TrackList} (h : l.encode = m.encode) : l = m := by
  have hl := decode_encode 0 l
  rw [h, decode_encode] at hl
  simpa using hl.symm

lemma decode_append_ne_ok {label : UInt64} {bs tail : Bytes} {l m : TrackList}
    (h : decode label bs = .ok l) (ht : tail ≠ []) : decode label (bs ++ tail) ≠ .ok m := by
  intro hm
  obtain ⟨rest, mid, hw, hi, hp⟩ := decode_eq_ok_iff.1 h
  obtain ⟨rest', mid', hw', hi', hp'⟩ := decode_eq_ok_iff.1 hm
  obtain ⟨hsize, rfl⟩ : l.size = m.size ∧ rest ++ tail = rest' := by
    simpa [Bytes.word?_append hw tail] using hw'
  rw [← hsize] at hi' hp'
  obtain ⟨front, rfl, hfront⟩ := Codec.split_ok hi
  have hmid : mid ++ tail = mid' := by
    rw [List.append_assoc, hfront] at hi'
    simpa using congrArg Prod.snd (Except.ok.inj hi')
  obtain ⟨front', rfl, hfront'⟩ := Codec.split_ok hp
  rw [← hmid, List.append_nil, hfront'] at hp'
  exact ht (congrArg Prod.snd (Except.ok.inj hp'))

lemma corruption_of_ofTags {label : UInt64} {rows : List (Int32 × Int32)} {e : Error} :
    ∀ {previous : Option Int32}, ofTags label previous rows = .error e →
      (∃ c, e = .corrupt c) ∨ ∃ tag, e = .unknownEncoding tag := by
  induction rows with
  | nil =>
    intro previous h
    cases h
  | cons row rows ih =>
    intro previous h
    obtain ⟨id, tag⟩ := row
    rw [ofTags] at h
    split at h
    · exact .inl ⟨_, (Except.error.inj h).symm⟩
    · split at h
      · exact .inr ⟨_, (Except.error.inj h).symm⟩
      · split at h
        · cases h
        next hrest =>
          obtain rfl := Except.error.inj h
          exact ih hrest

lemma corruption_of_decode {label : UInt64} {bs : Bytes} {e : Error} (h : decode label bs = .error e) :
    (∃ c, e = .corrupt c) ∨ ∃ tag, e = .unknownEncoding tag := by
  rw [decode] at h
  split at h
  · exact .inl ⟨_, (Except.error.inj h).symm⟩
  · split at h
    next hi =>
      obtain rfl := Except.error.inj h
      exact .inl (Codec.corrupt_of_split hi)
    · split at h
      next hp =>
        obtain rfl := Except.error.inj h
        exact .inl (Codec.corrupt_of_split hp)
      · split at h
        · exact .inl ⟨_, (Except.error.inj h).symm⟩
        · split at h
          next ht =>
            obtain rfl := Except.error.inj h
            exact corruption_of_ofTags ht
          · cases h

lemma findIdx?_of_find? {α : Type} {p : α → Bool} {xs : List α} {a : α} (h : xs.find? p = some a) :
    ∃ i, xs.findIdx? p = some i ∧ xs[i]? = some a := by
  induction xs with
  | nil => simp at h
  | cons x xs ih =>
    rw [List.findIdx?_cons]
    by_cases hx : p x
    · exact ⟨0, by simp_all⟩
    · obtain ⟨i, hi, ha⟩ := ih (by simpa [hx] using h)
      exact ⟨i + 1, by simp [hx, hi], by simpa using ha⟩

lemma id_of_find? {l : TrackList} {id : Int32} {t : Track} (h : l.find? id = some t) : t.id = id := by
  simpa using List.find?_some h

lemma indexOf?_of_find? {l : TrackList} {id : Int32} {t : Track} (h : l.find? id = some t) :
    ∃ i, l.indexOf? id = some i ∧ l.tracks[i]? = some t :=
  findIdx?_of_find? h

lemma nodup_of_ascending {ts : List Track} (h : ts.Pairwise fun a b => a.id < b.id) :
    (ts.map Track.id).Nodup :=
  List.pairwise_map.2 (h.imp fun {_ _} hlt => Int32.ne_of_lt hlt)

lemma nodup_ids (l : TrackList) : (l.tracks.map Track.id).Nodup := nodup_of_ascending l.ascending

lemma find?_of_mem {l : TrackList} {t : Track} (h : t ∈ l.tracks) : l.find? t.id = some t := by
  cases hf : l.find? t.id with
  | none => simpa using List.find?_eq_none.1 hf t h
  | some u =>
    have hu := List.mem_of_find?_eq_some hf
    rw [List.inj_on_of_nodup_map l.nodup_ids hu h (id_of_find? hf)]

lemma find?_eq_none {l : TrackList} {id : Int32} (h : id ∉ l.tracks.map Track.id) :
    l.find? id = none := by
  apply List.find?_eq_none.2
  intro t ht hid
  exact h (List.mem_map.2 ⟨t, ht, by simpa using hid⟩)

lemma indexOf?_of_getElem? {l : TrackList} {i : Nat} {t : Track} (h : l.tracks[i]? = some t) :
    l.indexOf? t.id = some i := by
  have hfind := find?_of_mem (List.mem_of_getElem? h)
  obtain ⟨j, hj, ht⟩ := indexOf?_of_find? hfind
  have hsame : (l.tracks.map Track.id)[i]? = (l.tracks.map Track.id)[j]? := by
    rw [List.getElem?_map, List.getElem?_map, h, ht]
  obtain ⟨hlt, -⟩ := List.getElem?_eq_some_iff.1 h
  rw [hj, (List.getElem?_inj (by simpa using hlt) l.nodup_ids).1 hsame]

lemma getElem?_eq_some_iff {l : TrackList} {i : Nat} {t : Track} :
    l.tracks[i]? = some t ↔ l.find? t.id = some t ∧ l.indexOf? t.id = some i := by
  constructor
  · intro h
    exact ⟨find?_of_mem (List.mem_of_getElem? h), indexOf?_of_getElem? h⟩
  · rintro ⟨hfind, hi⟩
    obtain ⟨j, hj, ht⟩ := indexOf?_of_find? hfind
    obtain rfl : i = j := by simpa [hi] using hj
    exact ht

lemma isSome_find?_iff {l : TrackList} {id : Int32} : (l.find? id).isSome ↔ id ∈ l.tracks.map Track.id := by
  constructor
  · intro h
    obtain ⟨t, ht⟩ := Option.isSome_iff_exists.1 h
    exact List.mem_map.2 ⟨t, List.mem_of_find?_eq_some ht, id_of_find? ht⟩
  · intro h
    obtain ⟨t, ht, rfl⟩ := List.mem_map.1 h
    rw [find?_of_mem ht]
    rfl

lemma tracks_injective {l m : TrackList} (h : l.tracks = m.tracks) : l = m := by
  cases l
  cases m
  congr

lemma ext_mem {l m : TrackList} (h : ∀ t, t ∈ l.tracks ↔ t ∈ m.tracks) : l = m := by
  let r : Track → Track → Prop := fun a b => a.id < b.id
  have hanti : Std.Antisymm r := ⟨fun a b hab hba => absurd hab (Int32.lt_asymm hba)⟩
  have hirrefl : Std.Irrefl r := ⟨fun a => Int32.lt_irrefl⟩
  exact tracks_injective (List.Pairwise.eq_of_mem_iff (r := r) l.ascending m.ascending h)

lemma repeated?_eq_none {ts : List Track} (h : ts.Pairwise fun a b => a.id < b.id) :
    repeated? ts = none := by
  induction h with
  | nil => rfl
  | @cons t ts ht hts ih =>
    cases ts with
    | nil => rfl
    | cons u ts => rw [repeated?, if_neg (Int32.ne_of_lt (ht u (by simp))), ih]

lemma perm_sortById (ts : List Track) : (sortById ts).Perm ts := List.mergeSort_perm _ _

lemma length_sortById (ts : List Track) : (sortById ts).length = ts.length :=
  (perm_sortById ts).length_eq

lemma sortById_of_perm {added : List Track} {l : TrackList} (h : added.Perm l.tracks) :
    sortById added = l.tracks := by
  have hperm : (sortById added).Perm l.tracks := (perm_sortById added).trans h
  refine hperm.eq_of_pairwise (fun t u ht hu hle hge => ?_) (pairwise_sortById added)
    (l.ascending.imp Int32.le_of_lt)
  exact List.inj_on_of_nodup_map l.nodup_ids (hperm.mem_iff.1 ht) hu (Int32.le_antisymm hle hge)

theorem ofList_eq_ok {added : List Track} {l : TrackList} :
    ofList added = .ok l ↔ added.Perm l.tracks ∧ added.length ≤ maxSize := by
  have hlen := length_sortById added
  constructor
  · intro h
    rw [ofList] at h
    split at h
    · cases h
    · split at h
      · cases h
      next hn =>
        obtain rfl := Except.ok.inj h
        exact ⟨(perm_sortById added).symm, by omega⟩
  · rintro ⟨hperm, hn⟩
    have hsort := sortById_of_perm hperm
    rw [ofList]
    split
    next hr => simp [hsort, repeated?_eq_none l.ascending] at hr
    next hr =>
      rw [dif_neg (by omega)]
      congr

end TrackList
end ChunkStore
