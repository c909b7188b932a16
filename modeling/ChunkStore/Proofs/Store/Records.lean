import ChunkStore.Proofs.Store.Numbering
import ChunkStore.Proofs.Store.Plain

namespace ChunkStore

open Attempt

namespace History

variable {h : History}

lemma last?_ne_none {x : Stored} (hx : x ∈ h.stored) : h.last? x.timestamp ≠ none := fun hn => by
  have hno := List.find?_eq_none.1 hn x hx
  simp at hno

lemma mem_of_last? {t : Int64} {x : Stored} (hx : h.last? t = some x) :
    x ∈ h.stored ∧ x.timestamp = t :=
  ⟨List.mem_of_find?_eq_some hx, by simpa using List.find?_some hx⟩

end History

namespace Container

def Matches (c : Container) : Option Stored → Option ChunkRow → Prop
  | none, none => True
  | some x, some row => row.payload = x.payload ∧ c.Holds row.descriptorId x.tracks
  | _, _ => False

structure Records (c : Container) (h : History) : Prop where
  inverse : c.Inverse
  readable : c.Readable
  few : h.trackLists.length < UInt64.size
  numbered : c.descriptors.rows.entries = h.numbering
  chunks : ∀ t, c.Matches (h.last? t) (c.chunks.rows.find? t)
  found : ∀ e ∈ h, ∀ chunk ∈ e.found,
    c.Holds chunk.descriptor.persistedId chunk.descriptor.toTrackList

variable {c d : Container} {h : History} {e : Event}

lemma records_empty : empty.Records [] where
  inverse id bytes := by simp [empty, Table.rows]
  readable := ⟨rfl, rfl⟩
  few := by decide
  numbered := rfl
  chunks t := trivial
  found e he := by cases he

lemma Matches.extend {x : Option Stored} {row : Option ChunkRow} (hm : c.Matches x row)
    (hcd : c.Extends d) : d.Matches x row := by
  cases x with
  | none =>
    cases row with
    | none => trivial
    | some row => exact hm
  | some x =>
    cases row with
    | none => exact hm
    | some row => exact ⟨hm.1, hm.2.extend hcd⟩

lemma Matches.of_some {x : Option Stored} {row : ChunkRow} (hm : c.Matches x (some row)) :
    ∃ y, x = some y ∧ row.payload = y.payload ∧ c.Holds row.descriptorId y.tracks := by
  cases x with
  | none => exact hm.elim
  | some y => exact ⟨y, rfl, hm⟩

lemma Matches.of_none {x : Option Stored} (hm : c.Matches x none) : x = none := by
  cases x with
  | none => rfl
  | some y => exact hm.elim

lemma Readable.congr (hc : c.Readable) (hcd : c.data = d.data) : d.Readable where
  descriptors := by
    rw [← descriptors_congr (congrArg Prod.fst hcd), ← hc.descriptors]
    exact (congrArg (fun x => x.1.1) hcd).symm
  chunks := by
    have hread : c.chunks.read = d.chunks.read := congrArg Prod.snd hcd
    rw [← Table.rows_congr hread, ← hc.chunks, hread]

lemma Records.congr (hc : c.Records h) (hcd : c.data = d.data) : d.Records h := by
  have hids : c.ids = d.ids := congrArg Prod.fst hcd
  have hrows : c.chunks.rows = d.chunks.rows := Table.rows_congr (congrArg Prod.snd hcd)
  have hgrow := extends_of_ids hids
  refine ⟨hc.inverse.congr hids, hc.readable.congr hcd, hc.few, ?_, fun t => ?_,
    fun e he chunk hm => (hc.found e he chunk hm).extend hgrow⟩
  · rw [← descriptors_congr hids, hc.numbered]
  · rw [← hrows]
    exact (hc.chunks t).extend hgrow

lemma Records.quiet (hc : c.Records h) (hs : e.stored? = none)
    (hf : ∀ chunk ∈ e.found, c.Holds chunk.descriptor.persistedId chunk.descriptor.toTrackList) :
    c.Records (e :: h) := by
  have hlists : History.trackLists (e :: h) = h.trackLists := History.trackLists_quiet hs
  have hlast (t : Int64) : History.last? (e :: h) t = h.last? t := by
    rw [History.last?, History.last?, History.stored_quiet hs]
  refine ⟨hc.inverse, hc.readable, ?_, ?_, fun t => ?_, fun e' he' chunk hm => ?_⟩
  · rw [hlists]
    exact hc.few
  · rw [hc.numbered, History.numbering, History.numbering, hlists]
  · rw [hlast]
    exact hc.chunks t
  · rcases List.mem_cons.1 he' with rfl | he'
    · exact hf chunk hm
    · exact hc.found e' he' chunk hm

lemma Records.find?_iff (hc : c.Records h) {id : UInt64} {bytes : Bytes} :
    c.descriptors.rows.find? id = some bytes ↔
      ∃ i l, h.trackLists[i]? = some l ∧ UInt64.ofNat (i + 1) = id ∧ l.encode = bytes := by
  rw [← Rows.mem_iff_find?, hc.numbered, History.mem_numbering]

lemma Records.holds_iff (hc : c.Records h) {id : UInt64} {l : TrackList} :
    c.Holds id l ↔ ∃ i, h.trackLists[i]? = some l ∧ UInt64.ofNat (i + 1) = id := by
  constructor
  · rintro ⟨bytes, hb, hl⟩
    obtain ⟨i, m, hi, hid, rfl⟩ := hc.find?_iff.1 hb
    obtain rfl : m = l := by simpa [TrackList.decode_encode] using hl
    exact ⟨i, hi, hid⟩
  · rintro ⟨i, hi, hid⟩
    exact ⟨l.encode, hc.find?_iff.2 ⟨i, l, hi, hid, rfl⟩, TrackList.decode_encode id l⟩

lemma Records.ne_zero (hc : c.Records h) {id : UInt64} {l : TrackList} (hl : c.Holds id l) :
    id ≠ 0 := by
  obtain ⟨i, hi, rfl⟩ := hc.holds_iff.1 hl
  have hn := History.toNat_number hc.few hi
  intro h0
  simp [h0] at hn

lemma Records.lt_of_hasNumbers (hc : c.Records h) (hn : c.HasNumbers) :
    h.trackLists.length + 1 < UInt64.size := by
  obtain hnil | ⟨ls, l, hls⟩ := h.trackLists.eq_nil_or_concat
  · rw [hnil]
    decide
  · rw [List.concat_eq_append] at hls
    have hlast : c.descriptors.rows.last? = some (UInt64.ofNat (ls.length + 1), l.encode) := by
      rw [Rows.last?, hc.numbered, History.numbering, hls, List.mapIdx_concat, List.getLast?_concat]
    have hi : h.trackLists[ls.length]? = some l := by simp [hls]
    have hlt := hn _ hlast
    dsimp only at hlt
    rw [History.toNat_number hc.few hi] at hlt
    rwa [hls, List.length_append]

lemma Records.notMem_of_find? (hc : c.Records h) {l : TrackList}
    (hb : c.contents.rows.find? l.encode = none) : l ∉ h.trackLists := fun hm => by
  -- a list that was put before has a number, and then its written form is found
  obtain ⟨i, hi⟩ := List.getElem?_of_mem hm
  have hfind := (hc.inverse _ _).1 (hc.find?_iff.2 ⟨i, _, hi, rfl, rfl⟩)
  simp [hb] at hfind

lemma Records.numbered_put (hc : c.Records h) {x : Stored} (hx : e.stored? = some x)
    (hnew : Plain.Interned x.tracks c d) :
    (History.trackLists (e :: h)).length < UInt64.size ∧
      d.descriptors.rows.entries = History.numbering (e :: h) := by
  obtain ⟨hd, id, hl⟩ | ⟨hn, hb, hd⟩ := hnew
  · obtain ⟨i, hi, -⟩ := hc.holds_iff.1 hl
    have hsame : History.trackLists (e :: h) = h.trackLists := by
      rw [History.trackLists_put hx, if_pos (List.mem_of_getElem? hi)]
    rw [hd, History.numbering, hsame]
    exact ⟨hc.few, hc.numbered⟩
  · have hlt := hc.lt_of_hasNumbers hn
    have hm := hc.notMem_of_find? hb
    rw [hd, Transaction.numbering_insert hc.numbered hlt hx hm, History.trackLists_put hx, if_neg hm,
      List.length_append]
    exact ⟨hlt, rfl⟩

lemma Records.put (hc : c.Records h) (hgrow : Transaction.Numbers c d) {x : Stored}
    (hnew : Plain.Interned x.tracks c d)
    {c' : Container} (hids : c'.ids = d.ids) (hx : e.stored? = some x) (hf : e.found = [])
    {id : UInt64} (hchunks : c'.chunks = .stored (d.chunks.rows.insert x.timestamp ⟨id, x.payload⟩))
    (hid : d.Holds id x.tracks) : c'.Records (e :: h) := by
  have hgrow' : d.Extends c' := extends_of_ids hids.symm
  have hrows : c'.descriptors.rows = d.descriptors.rows := descriptors_congr hids
  obtain ⟨hfew, hnumbered⟩ := hc.numbered_put hx hnew
  refine ⟨hgrow.inverse.congr hids.symm, ⟨?_, ?_⟩, hfew, hrows ▸ hnumbered, fun t => ?_,
    fun e' he' chunk hm => ?_⟩
  · rw [hrows, ← hgrow.readable hc.readable.descriptors]
    exact congrArg Prod.fst hids
  · rw [hchunks, Table.read, Table.rows]
  · have hcrows : d.chunks.rows = c.chunks.rows := Table.rows_congr hgrow.chunks
    rw [History.last?, History.stored_put hx, hchunks, Table.rows, Rows.find?_insert, hcrows]
    by_cases ht : t = x.timestamp
    · rw [if_pos ht, List.find?_cons_of_pos (by simpa using ht.symm)]
      exact ⟨rfl, hid.extend hgrow'⟩
    · rw [if_neg ht, List.find?_cons_of_neg (by simpa using Ne.symm ht)]
      exact (hc.chunks t).extend (hgrow.grows.trans hgrow')
  · rcases List.mem_cons.1 he' with rfl | he'
    · simp [hf] at hm
    · exact (hc.found e' he' chunk hm).extend (hgrow.grows.trans hgrow')

lemma Records.faithful (hc : c.Records h) {scope : StoreId} {d : Descriptor}
    (hd : h.Sourced scope d) : Plain.Faithful scope d c := by
  induction hd with
  | @built b d hb =>
    intro _ hp
    rw [DescriptorBuilder.build] at hb
    split at hb
    · obtain rfl := Except.ok.inj hb
      simp [Descriptor.isPersisted] at hp
    · cases hb
  | @rescoped d id _ ih =>
    rw [Descriptor.forStore]
    split
    · exact ih
    · intro _ hp
      simp [Descriptor.isPersisted] at hp
  | found he hm => exact fun _ _ => hc.found _ he _ hm
  | elsewhere hs hne =>
    intro hs' _
    exact absurd (Option.some.inj (hs.symm.trans hs')) hne

lemma Records.find? (hc : c.Records h) (scope : StoreId) (t : Int64) :
    (h.last? t = none ∧ Plain.find? scope t c = .ok none c) ∨
      ∃ x id, h.last? t = some x ∧ id ≠ 0 ∧ c.Holds id x.tracks ∧
        Plain.find? scope t c = .ok (some (.ofParts ⟨x.tracks, some scope, id⟩ t x.payload)) c := by
  have hm := hc.chunks t
  cases hrow : c.chunks.rows.find? t with
  | none =>
    rw [hrow] at hm
    exact .inl ⟨hm.of_none, Plain.find?_eq_none hc.readable hrow⟩
  | some row =>
    rw [hrow] at hm
    obtain ⟨x, hx, hp, hl⟩ := hm.of_some
    refine .inr ⟨x, row.descriptorId, hx, hc.ne_zero hl, hl, ?_⟩
    rw [← hp]
    exact Plain.find?_eq_some hc.readable hrow hl

lemma Records.find?_eq_iff (hc : c.Records h) (scope : StoreId) (chunk : Chunk) :
    Plain.find? scope chunk.timestamp c = .ok (some chunk) c ↔
      ∃ row, c.chunks.rows.find? chunk.timestamp = some row ∧
        Plain.Loads scope c (chunk.timestamp, row) chunk := by
  constructor
  · intro hfind
    cases hrow : c.chunks.rows.find? chunk.timestamp with
    | none => simp [Plain.find?_eq_none hc.readable hrow] at hfind
    | some row =>
      have hm := hc.chunks chunk.timestamp
      rw [hrow] at hm
      obtain ⟨x, -, -, hl⟩ := hm.of_some
      refine ⟨row, rfl, x.tracks, hl, ?_⟩
      simpa [Plain.find?_eq_some hc.readable hrow hl] using hfind.symm
  · rintro ⟨row, hrow, l, hl, hchunk⟩
    rw [Plain.find?_eq_some hc.readable hrow hl, ← hchunk]

lemma timestamps_of_loads {scope : StoreId} {rows : List (Int64 × ChunkRow)} {cs : List Chunk}
    (hall : List.Forall₂ (Plain.Loads scope c) rows cs) :
    cs.map Chunk.timestamp = rows.map Prod.fst := by
  induction hall with
  | nil => rfl
  | cons hload _ ih =>
    obtain ⟨l, -, rfl⟩ := hload
    rw [List.map_cons, List.map_cons, ih]
    rfl

lemma mem_of_loads {scope : StoreId} {rows : List (Int64 × ChunkRow)} {cs : List Chunk}
    (hall : List.Forall₂ (Plain.Loads scope c) rows cs) (chunk : Chunk) :
    chunk ∈ cs ↔ ∃ r ∈ rows, Plain.Loads scope c r chunk := by
  induction hall with
  | nil => simp
  | @cons r chunk' rows cs hload _ ih =>
    have huniq : Plain.Loads scope c r chunk ↔ chunk = chunk' := by
      obtain ⟨l, hl, rfl⟩ := hload
      constructor
      · rintro ⟨m, hm, rfl⟩
        rw [hl.unique hm]
      · rintro rfl
        exact ⟨l, hl, rfl⟩
    simp [ih, huniq]

lemma Records.findBetween (hc : c.Records h) (scope : StoreId) (first last : Int64) :
    ∃ cs, Plain.findBetween scope first last c = .ok cs c ∧
      cs.Pairwise (fun a b => a.timestamp < b.timestamp) ∧
      ∀ chunk, chunk ∈ cs ↔ (first ≤ chunk.timestamp ∧ chunk.timestamp ≤ last) ∧
        Plain.find? scope chunk.timestamp c = .ok (some chunk) c := by
  by_cases hlt : last < first
  · refine ⟨[], Plain.findBetween_of_lt hlt, .nil, fun chunk => ?_⟩
    have hno : ¬ (first ≤ chunk.timestamp ∧ chunk.timestamp ≤ last) := fun ⟨hf, hl⟩ =>
      absurd (Int64.le_trans hf hl) (by simpa using hlt)
    simp [hno]
  · have hrows {t : Int64} {row : ChunkRow} (hrow : c.chunks.rows.find? t = some row) :
        ∃ l, c.Holds row.descriptorId l := by
      have hm := hc.chunks t
      rw [hrow] at hm
      obtain ⟨x, -, -, hl⟩ := hm.of_some
      exact ⟨x.tracks, hl⟩
    obtain ⟨cs, hrun, hall⟩ := Plain.findBetween_run scope hc.readable hrows hlt
    refine ⟨cs, hrun, ?_, fun chunk => ?_⟩
    · rw [← List.pairwise_map, timestamps_of_loads hall, List.pairwise_map]
      exact Rows.pairwise_between _ _ _
    · rw [mem_of_loads hall, hc.find?_eq_iff]
      constructor
      · rintro ⟨⟨t, row⟩, hr, l, hl, rfl⟩
        obtain ⟨hle, hrow⟩ := Rows.mem_between.1 hr
        exact ⟨hle, row, hrow, l, hl, rfl⟩
      · rintro ⟨hle, row, hrow, hload⟩
        exact ⟨_, Rows.mem_between.2 ⟨hle, hrow⟩, hload⟩

lemma Records.maxTimestamp (hc : c.Records h) :
    ∃ n, Plain.maxTimestamp c = .ok n c ∧
      ((h.stored = [] ∧ n = -1) ∨
        (∃ x ∈ h.stored, x.timestamp = n) ∧ ∀ x ∈ h.stored, x.timestamp ≤ n) := by
  have hrun := Plain.maxTimestamp_run hc.readable
  cases hl : c.chunks.rows.last? with
  | none =>
    rw [hl] at hrun
    refine ⟨-1, hrun, .inl ⟨List.eq_nil_iff_forall_not_mem.2 fun x hx => ?_, rfl⟩⟩
    have hm := hc.chunks x.timestamp
    rw [Rows.find?, Rows.last?_eq_none hl] at hm
    exact History.last?_ne_none hx hm.of_none
  | some r =>
    rw [hl] at hrun
    have hm := hc.chunks r.1
    rw [Rows.find?_last? hl] at hm
    obtain ⟨x, hx, -⟩ := hm.of_some
    refine ⟨r.1, hrun, .inr ⟨⟨x, History.mem_of_last? hx⟩, fun y hy => ?_⟩⟩
    have hmy := hc.chunks y.timestamp
    cases hrow : c.chunks.rows.find? y.timestamp with
    | none =>
      rw [hrow] at hmy
      exact absurd hmy.of_none (History.last?_ne_none hy)
    | some row => exact Rows.le_of_last? hl (Rows.mem_of_find? hrow)

lemma Records.serve_other (hc : c.Records h) (scope : StoreId) {r : Request}
    (hr : ∀ chunk, r ≠ .put chunk) (hs : ∀ o, Event.stored? ⟨.ask r, o⟩ = none)
    (hf : ∀ o, Event.found ⟨.ask r, o⟩ = []) :
    (state (Plain.serve scope r c)).Records
        (⟨.ask r, outcome (Plain.serve scope r c)⟩ :: h) ∧
      c.Extends (state (Plain.serve scope r c)) := by
  have hd := Plain.data_serve scope hr c
  exact ⟨(hc.congr hd).quiet (hs _) (by simp [hf]), extends_of_ids (congrArg Prod.fst hd)⟩

theorem Records.serve (hc : c.Records h) {scope : StoreId} {r : Request}
    (hr : Plain.Serves scope c r) :
    (state (Plain.serve scope r c)).Records
        (⟨.ask r, outcome (Plain.serve scope r c)⟩ :: h) ∧
      c.Extends (state (Plain.serve scope r c)) := by
  cases r with
  | put chunk =>
    cases hput : Plain.put scope chunk c with
    | ok _ c' =>
      obtain ⟨d, hgrow, hnew, hids, id, hchunks, hid⟩ :=
        Plain.put_ok hc.inverse (hr chunk rfl) hput
      rw [Plain.serve, map_ok hput]
      exact ⟨hc.put hgrow hnew hids rfl rfl hchunks hid,
        hgrow.grows.trans (extends_of_ids hids.symm)⟩
    | error e c' =>
      obtain rfl : c' = c := Plain.put_error hput
      rw [Plain.serve, map_error hput]
      exact ⟨hc.quiet rfl (by simp [Event.found]), extends_of_ids rfl⟩
  | find t =>
    obtain ⟨-, hfind⟩ | ⟨x, id, -, -, hl, hfind⟩ := hc.find? scope t
    · rw [Plain.serve, map_ok hfind]
      exact ⟨hc.quiet rfl (by simp [Event.found]), extends_of_ids rfl⟩
    · rw [Plain.serve, map_ok hfind]
      refine ⟨hc.quiet rfl fun chunk hm => ?_, extends_of_ids rfl⟩
      obtain rfl : chunk = .ofParts ⟨x.tracks, some scope, id⟩ t x.payload := by
        simpa [Event.found] using hm
      exact hl
  | findBetween t u =>
    obtain ⟨cs, hrun, -, hmem⟩ := hc.findBetween scope t u
    rw [Plain.serve, map_ok hrun]
    refine ⟨hc.quiet rfl fun chunk hm => ?_, extends_of_ids rfl⟩
    obtain ⟨row, hrow, l, hl, hchunk⟩ := (hc.find?_eq_iff scope chunk).1 ((hmem chunk).1 hm).2
    rw [hchunk]
    exact hl
  | maxTimestamp | epoch | setEpoch n | metadata k | putMetadata k v =>
    exact hc.serve_other scope (fun _ => nofun) (fun _ => rfl) (fun _ => rfl)

end Container
end ChunkStore
