import ChunkStore.Descriptor
import ChunkStore.Proofs.TrackList

/-!
What comes of the tracks that are put together in a builder. They are sorted, so that an id that
was added twice stands next to itself, and a track can be looked for by halving the list.
-/

namespace ChunkStore

namespace TrackList

def Repeats (ts : List Track) (id : Int32) : Prop := 2 ≤ (ts.map Track.id).count id

/-- Narrows `size` tracks from `base` on down to one, which is the one with the id if there is any. -/
def bisect (ts : List Track) (id : Int32) (base size : Nat) : Nat :=
  if size ≤ 1 then base
  else
    bisect ts id (if ts[base + size / 2]?.any fun t => id < t.id then base else base + size / 2)
      (size - size / 2)
termination_by size

def search? (l : TrackList) (id : Int32) : Option Nat :=
  (some (bisect l.tracks id 0 l.size)).filter fun i => l.tracks[i]?.any fun t => t.id = id

variable {l : TrackList} {ts us : List Track} {t : Track} {id : Int32} {base size i : Nat}

lemma id_lt_id_iff {j : Nat} {u : Track} (ht : l.tracks[i]? = some t) (hu : l.tracks[j]? = some u) :
    t.id < u.id ↔ i < j := by
  obtain ⟨hi, rfl⟩ := List.getElem?_eq_some_iff.1 ht
  obtain ⟨hj, rfl⟩ := List.getElem?_eq_some_iff.1 hu
  have hlt := List.pairwise_iff_getElem.1 l.ascending
  refine ⟨fun h => ?_, hlt i j hi hj⟩
  obtain hij | rfl | hji := lt_trichotomy i j
  · exact hij
  · exact absurd h Int32.lt_irrefl
  · exact absurd h (Int32.lt_asymm (hlt j i hj hi hji))

lemma bisect_eq (ht : l.tracks[i]? = some t) (hbase : base ≤ i) (hi : i < base + size)
    (hsize : base + size ≤ l.size) : bisect l.tracks t.id base size = i := by
  induction size using Nat.strong_induction_on generalizing base with
  | _ size ih =>
    rw [bisect]
    split
    · omega
    next hlarge =>
      have hmid : base + size / 2 < l.tracks.length := by
        rw [TrackList.size] at hsize
        omega
      have hu := List.getElem?_eq_getElem hmid
      have hleft : (l.tracks[base + size / 2]?.any fun u => t.id < u.id) = true ↔ i < base + size / 2 := by
        rw [hu, Option.any_some, decide_eq_true_eq, id_lt_id_iff ht hu]
      split
      next hlt => exact ih _ (by omega) hbase (by rw [hleft] at hlt; omega) (by omega)
      next hge => exact ih _ (by omega) (by rw [hleft] at hge; omega) (by omega) (by omega)

lemma search?_of_find? (h : l.find? id = some t) : l.search? id = l.indexOf? id := by
  obtain ⟨i, hi, hti⟩ := indexOf?_of_find? h
  obtain rfl := id_of_find? h
  obtain ⟨hlt, -⟩ := List.getElem?_eq_some_iff.1 hti
  have hbisect : bisect l.tracks t.id 0 l.size = i :=
    bisect_eq hti (Nat.zero_le i) (by simpa [TrackList.size] using hlt) (by omega)
  rw [search?, hbisect, hi, Option.filter_some, hti, Option.any_some, decide_eq_true rfl, if_pos rfl]

lemma search?_eq_none (h : l.find? id = none) : l.search? id = none := by
  rw [search?, Option.filter_some, if_neg]
  intro hany
  cases ht : l.tracks[bisect l.tracks id 0 l.size]? with
  | none => simp [ht] at hany
  | some t =>
    rw [ht, Option.any_some] at hany
    exact List.find?_eq_none.1 h t (List.mem_of_getElem? ht) hany

theorem search?_eq_indexOf? (l : TrackList) (id : Int32) : l.search? id = l.indexOf? id := by
  cases h : l.find? id with
  | some t => exact search?_of_find? h
  | none =>
    rw [search?_eq_none h, indexOf?, List.findIdx?_eq_none_iff.2]
    intro t ht
    simpa using List.find?_eq_none.1 h t ht

theorem getElem?_search? (l : TrackList) (id : Int32) :
    (l.search? id).bind (l.tracks[·]?) = l.find? id := by
  rw [search?_eq_indexOf?]
  cases h : l.find? id with
  | some t =>
    obtain ⟨i, hi, hti⟩ := indexOf?_of_find? h
    rw [hi, Option.bind_some, hti]
  | none => rw [← search?_eq_indexOf?, search?_eq_none h, Option.bind_none]

section repetition

lemma not_repeats_of_nodup (h : (ts.map Track.id).Nodup) (id : Int32) : ¬ Repeats ts id := by
  have := List.nodup_iff_count_le_one.1 h id
  rw [Repeats]
  omega

lemma mem_of_repeats (h : Repeats ts id) : id ∈ ts.map Track.id :=
  List.count_pos_iff.1 (Nat.lt_of_lt_of_le Nat.zero_lt_two h)

lemma repeats_cons_iff (h : t.id ∉ ts.map Track.id) : Repeats (t :: ts) id ↔ Repeats ts id := by
  rw [Repeats, Repeats, List.map_cons, List.count_cons]
  split
  next heq =>
    obtain rfl : t.id = id := by simpa using heq
    rw [List.count_eq_zero.2 h]
    omega
  · omega

lemma repeats_of_repeated? (hsorted : ts.Pairwise fun a b => a.id ≤ b.id)
    (h : repeated? ts = some id) : Repeats ts id ∧ ∀ other, Repeats ts other → id ≤ other := by
  induction ts with
  | nil => cases h
  | cons a ts ih =>
    obtain ⟨hle, hsorted⟩ := List.pairwise_cons.1 hsorted
    cases ts with
    | nil => cases h
    | cons b ts =>
      rw [repeated?] at h
      split at h
      next hab =>
        obtain rfl := Option.some.inj h
        refine ⟨by simp [Repeats, hab], fun other hother => ?_⟩
        obtain heq | hmem := List.mem_cons.1 (mem_of_repeats hother)
        · exact Int32.le_of_eq heq.symm
        · obtain ⟨c, hc, rfl⟩ := List.mem_map.1 hmem
          exact hle c hc
      next hab =>
        obtain ⟨hrepeats, hleast⟩ := ih hsorted h
        -- the first id is smaller than all others, so it is not among the repeated ones
        have hfresh : a.id ∉ (b :: ts).map Track.id := fun hmem => by
          obtain ⟨c, hc, hca⟩ := List.mem_map.1 hmem
          have hbc : b.id ≤ c.id := by
            obtain rfl | hc := List.mem_cons.1 hc
            · exact Int32.le_refl _
            · exact (List.pairwise_cons.1 hsorted).1 c hc
          exact hab (Int32.le_antisymm (hle b (by simp)) (hca ▸ hbc))
        exact ⟨(repeats_cons_iff hfresh).2 hrepeats, fun other hother =>
          hleast other ((repeats_cons_iff hfresh).1 hother)⟩

lemma repeats_perm (h : ts.Perm us) : Repeats ts id ↔ Repeats us id := by
  rw [Repeats, Repeats, (h.map Track.id).count_eq]

lemma exists_repeated? (h : ¬ (ts.map Track.id).Nodup) : ∃ id, repeated? (sortById ts) = some id := by
  apply Option.ne_none_iff_exists'.1
  intro hnone
  have hsorted := pairwise_of_repeated? (pairwise_sortById ts) hnone
  exact h (((perm_sortById ts).map Track.id).nodup_iff.1 (nodup_of_ascending hsorted))

lemma repeated?_of_nodup (h : (ts.map Track.id).Nodup) : repeated? (sortById ts) = none := by
  cases hr : repeated? (sortById ts) with
  | none => rfl
  | some id =>
    have hrepeats := (repeats_of_repeated? (pairwise_sortById ts) hr).1
    exact absurd ((repeats_perm (perm_sortById ts)).1 hrepeats) (not_repeats_of_nodup h id)

end repetition

variable {added other : List Track}

lemma ofList_repeated (h : ¬ (added.map Track.id).Nodup) :
    ∃ id, ofList added = .error (.duplicateTrack id) ∧ Repeats added id ∧
      ∀ id', Repeats added id' → id ≤ id' := by
  obtain ⟨id, hid⟩ := exists_repeated? h
  obtain ⟨hrepeats, hleast⟩ := repeats_of_repeated? (pairwise_sortById added) hid
  refine ⟨id, ?_, (repeats_perm (perm_sortById added)).1 hrepeats, fun id' hid' =>
    hleast id' ((repeats_perm (perm_sortById added)).2 hid')⟩
  rw [ofList]
  split
  next id' hid' =>
    obtain rfl : id = id' := by simpa [hid] using hid'
    rfl
  next hnone => simp [hid] at hnone

lemma ofList_tooMany (h : (added.map Track.id).Nodup) (hlen : maxSize < added.length) :
    ofList added = .error (.invalidArgument (.tooManyTracks added.length)) := by
  have hnone := repeated?_of_nodup h
  rw [ofList]
  split
  next hid => simp [hnone] at hid
  next => rw [dif_pos (by rwa [length_sortById]), length_sortById]

lemma exists_ofList (h : (added.map Track.id).Nodup) (hlen : added.length ≤ maxSize) :
    ∃ l, ofList added = .ok l := by
  have hnone := repeated?_of_nodup h
  rw [ofList]
  split
  next hid => simp [hnone] at hid
  next =>
    rw [dif_neg (by rw [length_sortById]; omega)]
    exact ⟨_, rfl⟩

theorem ofList_perm (h : added.Perm other) : ofList added = ofList other := by
  have hnodup := (h.map Track.id).nodup_iff
  by_cases hids : (added.map Track.id).Nodup
  · obtain hlen | hlen := Nat.lt_or_ge maxSize added.length
    · rw [ofList_tooMany hids hlen, ofList_tooMany (hnodup.1 hids) (h.length_eq ▸ hlen), h.length_eq]
    · obtain ⟨l, hl⟩ := exists_ofList hids hlen
      obtain ⟨hperm, -⟩ := ofList_eq_ok.1 hl
      rw [hl, ofList_eq_ok.2 ⟨h.symm.trans hperm, h.length_eq ▸ hlen⟩]
  · obtain ⟨id, herror, hid, hleast⟩ := ofList_repeated hids
    obtain ⟨id', herror', hid', hleast'⟩ := ofList_repeated fun hother => hids (hnodup.2 hother)
    have hle := hleast id' ((repeats_perm h).2 hid')
    have hge := hleast' id ((repeats_perm h).1 hid)
    rw [herror, herror', Int32.le_antisymm hle hge]

end TrackList

namespace DescriptorBuilder

variable {scope : Option StoreId} {added : List Track} {d : Descriptor}

lemma build_eq_ok {b : DescriptorBuilder} {d : Descriptor} : b.build.1 = .ok d ↔
    b.added.Perm d.tracks ∧ b.added.length ≤ TrackList.maxSize ∧ d.scope = b.scope ∧
      d.persistedId = 0 := by
  rw [← and_assoc, ← TrackList.ofList_eq_ok, build]
  obtain ⟨l, scope, id⟩ := d
  cases h : TrackList.ofList b.added with
  | error e => simp
  | ok m => simp [eq_comm]

inductive Call where
  | add (t : Track)
  | build

def Call.run : Call → DescriptorBuilder → DescriptorBuilder
  | add t, b => b.add t
  | build, b => b.build.2

def runAll (calls : List Call) (b : DescriptorBuilder) : DescriptorBuilder :=
  calls.foldl (fun b call => call.run b) b

lemma build_snd (b : DescriptorBuilder) : b.build.2 = empty b.scope := by
  rw [build]
  split <;> rfl

lemma build_error {b : DescriptorBuilder} {e : Error} (h : TrackList.ofList b.added = .error e) :
    b.build.1 = .error e := by
  rw [build, h]

lemma scope_run (call : Call) (b : DescriptorBuilder) : (call.run b).scope = b.scope := by
  cases call with
  | add t => rfl
  | build => rw [Call.run, build_snd]; rfl

lemma scope_runAll (calls : List Call) (b : DescriptorBuilder) : (runAll calls b).scope = b.scope := by
  induction calls generalizing b with
  | nil => rfl
  | cons call calls ih => exact (ih _).trans (scope_run call b)

lemma runAll_adds (added : List Track) (b : DescriptorBuilder) :
    runAll (added.map .add) b = ⟨b.added ++ added, b.scope⟩ := by
  induction added generalizing b with
  | nil => rw [List.append_nil]; rfl
  | cons t added ih =>
    refine (ih (b.add t)).trans ?_
    rw [add, List.append_assoc]
    rfl

lemma runAll_behind_build (before : List Call) (added : List Track) (b : DescriptorBuilder) :
    runAll (before ++ .build :: added.map .add) b = ⟨added, b.scope⟩ := by
  have hbuild : runAll (before ++ .build :: added.map .add) b =
      runAll (added.map .add) (runAll before b).build.2 := by
    simp [runAll, Call.run]
  rw [hbuild, runAll_adds, build_snd, scope_runAll]
  rfl

structure BuiltFrom (d : Descriptor) (scope : Option StoreId) (added : List Track) : Prop where
  perm : d.tracks.Perm added
  ascending : d.tracks.Pairwise fun t u => t.id < u.id
  scope : d.scope = scope
  persistedId : d.persistedId = 0
  place : ∀ (i : Nat) t, d.tracks[i]? = some t ↔ d.search? t.id = some i ∧ d.find? t.id = some t
  finds : ∀ t ∈ added, d.find? t.id = some t
  lacks : ∀ id, id ∉ added.map Track.id → d.find? id = none
  search : ∀ id, (d.search? id).bind (d.tracks[·]?) = d.find? id

lemma builtFrom_of_build (h : (DescriptorBuilder.mk added scope).build.1 = .ok d) :
    BuiltFrom d scope added := by
  obtain ⟨hperm, -, hscope, hid⟩ := build_eq_ok.1 h
  refine ⟨hperm.symm, d.ascending, hscope, hid, fun i t => ?_, fun t ht => ?_, fun id hid => ?_,
    d.getElem?_search?⟩
  · rw [TrackList.getElem?_eq_some_iff, TrackList.search?_eq_indexOf?, and_comm]
  · exact TrackList.find?_of_mem (hperm.mem_iff.1 ht)
  · exact TrackList.find?_eq_none fun hmem => hid ((hperm.map Track.id).mem_iff.2 hmem)

lemma exists_build_ok_iff : (∃ d, (DescriptorBuilder.mk added scope).build.1 = .ok d) ↔
    (added.map Track.id).Nodup ∧ added.length ≤ TrackList.maxSize := by
  constructor
  · rintro ⟨d, hd⟩
    obtain ⟨hperm, hlen, -⟩ := build_eq_ok.1 hd
    exact ⟨(hperm.map Track.id).nodup_iff.2 d.nodup_ids, hlen⟩
  · rintro ⟨hids, hlen⟩
    obtain ⟨l, hl⟩ := TrackList.exists_ofList hids hlen
    have hperm := (TrackList.ofList_eq_ok.1 hl).1
    exact ⟨{ l with scope, persistedId := 0 }, build_eq_ok.2 ⟨hperm, hlen, rfl, rfl⟩⟩

lemma build_perm {other : List Track} (h : other.Perm added) :
    (DescriptorBuilder.mk other scope).build.1 = (DescriptorBuilder.mk added scope).build.1 := by
  rw [build, build, TrackList.ofList_perm h]

lemma encode_build (scope scope' : Option StoreId) (added : List Track) :
    (DescriptorBuilder.mk added scope').build.1.map (fun d => d.encode) =
      (DescriptorBuilder.mk added scope).build.1.map fun d => d.encode := by
  rw [build, build]
  cases TrackList.ofList added <;> rfl

theorem build_of_adds (scope : Option StoreId) (before : List Call) (added : List Track) :
    runAll (before ++ .build :: added.map .add) (empty scope) = runAll (added.map .add) (empty scope) ∧
    let b := runAll (added.map .add) (empty scope)
    b.build.2 = empty scope ∧
    ((∃ d, b.build.1 = .ok d) ↔
      (added.map Track.id).Nodup ∧ added.length ≤ TrackList.maxSize) ∧
    (∀ d, b.build.1 = .ok d → BuiltFrom d scope added) ∧
    (¬ (added.map Track.id).Nodup → ∃ id, b.build.1 = .error (.duplicateTrack id) ∧
      TrackList.Repeats added id ∧ ∀ other, TrackList.Repeats added other → id ≤ other) ∧
    ((added.map Track.id).Nodup → TrackList.maxSize < added.length →
      b.build.1 = .error (.invalidArgument (.tooManyTracks added.length))) ∧
    ∀ other : List Track, other.Perm added →
      (runAll (other.map .add) (empty scope)).build.1 = b.build.1 ∧
      ∀ scope', (runAll (other.map .add) (empty scope')).build.1.map (fun d => d.encode) =
        b.build.1.map fun d => d.encode := by
  have hadds (added : List Track) (scope : Option StoreId) :
      runAll (added.map .add) (empty scope) = ⟨added, scope⟩ := runAll_adds added (empty scope)
  refine ⟨(runAll_behind_build before added (empty scope)).trans (hadds added scope).symm, ?_⟩
  simp only [hadds]
  refine ⟨build_snd _, exists_build_ok_iff, fun d => builtFrom_of_build, fun h => ?_, fun h hlen => ?_,
    fun other hperm => ⟨build_perm hperm, fun scope' => ?_⟩⟩
  · obtain ⟨id, herror, hleast⟩ := TrackList.ofList_repeated h
    exact ⟨id, build_error herror, hleast⟩
  · exact build_error (TrackList.ofList_tooMany h hlen)
  · rw [build_perm hperm, encode_build]

def sampleAdded : List Track :=
  [⟨2147483647, .text⟩, ⟨-3, .binary⟩, ⟨-2147483648, .varbyte⟩, ⟨0, .noData⟩]

def sampleBuilt : Descriptor where
  tracks := [⟨-2147483648, .varbyte⟩, ⟨-3, .binary⟩, ⟨0, .noData⟩, ⟨2147483647, .text⟩]
  ascending := by decide
  length_lt := by decide
  scope := none
  persistedId := 0

theorem build_of_adds_sample :
    (runAll (sampleAdded.map .add) (empty none)).build.1 = .ok sampleBuilt ∧
    BuiltFrom sampleBuilt none sampleAdded ∧
    ∃ id, (runAll ((sampleAdded ++ sampleAdded.tail).map .add) (empty none)).build.1 =
      .error (.duplicateTrack id) ∧ TrackList.Repeats (sampleAdded ++ sampleAdded.tail) id := by
  obtain ⟨-, -, -, hbuilt, -⟩ := build_of_adds none [] sampleAdded
  obtain ⟨-, -, -, -, htwice, -⟩ := build_of_adds none [] (sampleAdded ++ sampleAdded.tail)
  have hd : (runAll (sampleAdded.map .add) (empty none)).build.1 = .ok sampleBuilt :=
    build_eq_ok.2 (by decide +kernel)
  obtain ⟨id, herror, hrepeats, -⟩ := htwice (by decide)
  exact ⟨hd, hbuilt sampleBuilt hd, id, herror, hrepeats⟩

end DescriptorBuilder
end ChunkStore
