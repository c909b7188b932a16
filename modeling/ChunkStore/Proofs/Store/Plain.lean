import ChunkStore.Proofs.Store.Session

namespace ChunkStore.Plain

open Attempt Transaction

variable {scope : StoreId} {c : Container} {α : Type}

lemma openTable_begin {κ ν : Type} [LT κ] {slot : Container.Slot κ ν} {rows : Rows κ ν}
    (h : (slot.get c).read = .ok rows) (action : Action) :
    openTable slot action (.begin false c) = .ok rows (.begin false c) := by
  obtain ⟨u, hu⟩ := openTable_ok (t := .begin false c) h action
  have hstill := (still_openTable slot action).of_ok hu rfl
  rw [hu, hstill]

lemma transact_reading {x : Attempt Transaction α} {a : α}
    (h : x (.begin false c) = .ok a (.begin false c)) : transact false x c = .ok a c := by
  rw [transact_ok h]
  rfl

lemma loadChunk_run {timestamp : Int64} {row : ChunkRow} {l : TrackList}
    (h : c.Holds row.descriptorId l) :
    loadChunk scope timestamp row (.begin false c) =
      .ok (.ofParts ⟨l, some scope, row.descriptorId⟩ timestamp row.payload) (.begin false c) := by
  have hr : resolve scope row.descriptorId (.begin false c) =
      .ok ⟨l, some scope, row.descriptorId⟩ (.begin false c) :=
    resolve_of_keeps (d := ⟨l, some scope, row.descriptorId⟩) ⟨rfl, h⟩
  rw [loadChunk, bind_ok hr, pure_run]

lemma selectChunk_run (h : c.Readable) (timestamp : Int64) :
    selectChunk timestamp (.begin false c) = .ok (c.chunks.rows.find? timestamp) (.begin false c) := by
  rw [selectChunk, bind_ok (openTable_begin h.chunks _), pure_run]

lemma find?_eq_none (h : c.Readable) {timestamp : Int64}
    (hrow : c.chunks.rows.find? timestamp = none) : find? scope timestamp c = .ok none c := by
  apply transact_reading
  rw [bind_ok (selectChunk_run h timestamp), hrow]
  rfl

lemma find?_eq_some (h : c.Readable) {timestamp : Int64} {row : ChunkRow} {l : TrackList}
    (hrow : c.chunks.rows.find? timestamp = some row) (hl : c.Holds row.descriptorId l) :
    find? scope timestamp c =
      .ok (some (.ofParts ⟨l, some scope, row.descriptorId⟩ timestamp row.payload)) c := by
  apply transact_reading
  rw [bind_ok (selectChunk_run h timestamp), hrow]
  dsimp only
  rw [bind_ok (loadChunk_run hl), pure_run]

def Loads (scope : StoreId) (c : Container) (r : Int64 × ChunkRow) (chunk : Chunk) : Prop :=
  ∃ l, c.Holds r.2.descriptorId l ∧
    chunk = .ofParts ⟨l, some scope, r.2.descriptorId⟩ r.1 r.2.payload

lemma loadChunks_run (scope : StoreId) (rows : List (Int64 × ChunkRow))
    (h : ∀ r ∈ rows, ∃ l, c.Holds r.2.descriptorId l) :
    ∃ cs, loadChunks scope rows (.begin false c) = .ok cs (.begin false c) ∧
      List.Forall₂ (Loads scope c) rows cs := by
  induction rows with
  | nil => exact ⟨[], rfl, .nil⟩
  | cons r rows ih =>
    obtain ⟨l, hl⟩ := h r (by simp)
    obtain ⟨cs, hcs, hall⟩ := ih fun r hr => h r (by simp [hr])
    refine ⟨_, ?_, .cons ⟨l, hl, rfl⟩ hall⟩
    rw [loadChunks, bind_ok (loadChunk_run hl), bind_ok hcs, pure_run]

lemma selectChunks_run (h : c.chunks.read = .ok c.chunks.rows) {first last : Int64}
    (hle : ¬ last < first) : selectChunks first last (.begin false c) =
      .ok (c.chunks.rows.between first last) (.begin false c) := by
  rw [selectChunks, if_neg hle, bind_ok (openTable_begin h _), pure_run]

lemma selectMaxTimestamp_run (h : c.chunks.read = .ok c.chunks.rows) :
    selectMaxTimestamp (.begin false c) =
      .ok ((c.chunks.rows.last?.map Prod.fst).getD (-1)) (.begin false c) := by
  rw [selectMaxTimestamp, bind_ok (openTable_begin h _)]
  cases c.chunks.rows.last? with
  | none => rfl
  | some r => rfl

lemma findBetween_of_lt {first last : Int64} (h : last < first) :
    findBetween scope first last c = .ok [] c := by
  apply transact_reading
  have hsel : selectChunks first last (.begin false c) = .ok [] (.begin false c) := by
    rw [selectChunks, if_pos h, pure_run]
  rw [bind_ok hsel]
  rfl

lemma findBetween_run (scope : StoreId) (h : c.Readable) (hrows : ∀ {t row}, c.chunks.rows.find? t = some row →
    ∃ l, c.Holds row.descriptorId l) {first last : Int64} (hle : ¬ last < first) :
    ∃ cs, findBetween scope first last c = .ok cs c ∧
      List.Forall₂ (Loads scope c) (c.chunks.rows.between first last) cs := by
  obtain ⟨cs, hcs, hall⟩ := loadChunks_run scope (c.chunks.rows.between first last)
    fun r hr => hrows (Rows.mem_between.1 hr).2
  refine ⟨cs, transact_reading ?_, hall⟩
  rw [bind_ok (selectChunks_run h.chunks hle), hcs]

lemma maxTimestamp_run (h : c.Readable) :
    maxTimestamp c = .ok ((c.chunks.rows.last?.map Prod.fst).getD (-1)) c :=
  transact_reading (selectMaxTimestamp_run h.chunks)

lemma tracks_forStore (d : Descriptor) (scope : StoreId) :
    (d.forStore scope).toTrackList = d.toTrackList := by
  rw [Descriptor.forStore]
  split <;> rfl

lemma tracks_of_intern {t u : Transaction} {d e : Descriptor} (h : intern scope d t = .ok e u) :
    e.toTrackList = d.toTrackList := by
  obtain ⟨-, rfl, -⟩ | ⟨id, -, rfl⟩ := intern_ok h
  · exact tracks_forStore d scope
  · exact tracks_forStore d scope

/-- `d` has the same rows as `c` if `c` had one for the tracks, and else one more, with the next
number. -/
def Interned (l : TrackList) (c d : Container) : Prop :=
  (d.descriptors.rows = c.descriptors.rows ∧ ∃ id, c.Holds id l) ∨
    c.HasNumbers ∧ c.contents.rows.find? l.encode = none ∧
      d.descriptors.rows = c.descriptors.rows.insert (nextId c.descriptors.rows) l.encode

lemma interned_of_intern {t u : Transaction} {d e : Descriptor} (hi : t.view.Inverse)
    (hf : Faithful scope d t.view) (h : intern scope d t = .ok e u) :
    Interned d.toTrackList t.view u.view := by
  rw [← tracks_forStore d scope]
  obtain ⟨hp, -, rfl⟩ | ⟨id, hins, -⟩ := intern_ok h
  · exact .inl ⟨rfl, _, (keeps_forStore hf hp).2⟩
  · obtain ⟨e', u', hins', -⟩ | ⟨j, u', hins', hb, hu⟩ | ⟨u', hins', hu⟩ :=
      insertDescriptor_cases (d.forStore scope).encode t
    · simp [hins] at hins'
    · obtain ⟨rfl, rfl⟩ : id = j ∧ u = u' := by simpa [hins] using hins'
      exact .inl ⟨(Container.descriptors_congr hu.ids).symm, id, _, (hi _ _).2 hb,
        TrackList.decode_encode _ _⟩
    · obtain ⟨-, rfl⟩ : id = _ ∧ u = u' := by simpa [hins] using hins'
      exact .inr ⟨hu.hasNumbers, hu.fresh, hu.rows⟩

lemma put_ok {chunk : Chunk} {c' : Container} (hi : c.Inverse)
    (hf : Faithful scope chunk.descriptor c) (h : put scope chunk c = .ok () c') :
    ∃ d : Container, Numbers c d ∧ Interned chunk.descriptor.toTrackList c d ∧ c'.ids = d.ids ∧
      ∃ id, c'.chunks = .stored (d.chunks.rows.insert chunk.timestamp ⟨id, chunk.payload⟩) ∧
        d.Holds id chunk.descriptor.toTrackList := by
  obtain ⟨e, u, -, hput⟩ | ⟨d, u, hs, hput⟩ := put_cases scope chunk c
  · simp [hput] at h
  · obtain rfl : u.view = c' := by simpa [hput] using h
    obtain ⟨v, hd, hc⟩ := storeChunk_ok hs
    have hgrow := grows_intern (t := .begin true c) scope chunk.descriptor hi
    rw [hd] at hgrow
    have hkeeps := keeps_of_intern (t := .begin true c) hi hf hd
    rw [Container.Keeps, tracks_of_intern hd] at hkeeps
    obtain ⟨hids, hchunks⟩ := insertChunk_ok hc
    exact ⟨v.view, hgrow, interned_of_intern (t := .begin true c) hi hf hd, hids, d.persistedId,
      hchunks, hkeeps.2⟩

lemma put_error {chunk : Chunk} {c' : Container} {e : Error}
    (h : put scope chunk c = .error e c') : c' = c := by
  obtain ⟨e', u, -, hput⟩ | ⟨d, u, -, hput⟩ := put_cases scope chunk c
  · simpa [hput] using (congrArg state h).symm
  · simp [hput] at h

abbrev SameData : Container → Container → Prop := InvImage Eq Container.data

lemma data_transact (writing : Bool) {x : Attempt Transaction α}
    (hx : Respects Transaction.SameData x) : Respects SameData (transact writing x) := fun c => by
  cases h : x (.begin writing c) with
  | ok a t =>
    rw [transact_ok h]
    exact (data_commit hx h).symm
  | error e t =>
    rw [transact_error h]
    rfl

lemma data_loadChunks (scope : StoreId) (rows : List (Int64 × ChunkRow)) :
    Respects Transaction.SameData (loadChunks scope rows) := by
  induction rows with
  | nil => exact respects_pure _
  | cons r rows ih =>
    exact (data_loadChunk _ _ _).bind fun _ => ih.bind fun _ => respects_pure _

lemma data_metadata? (key : String) : Respects SameData (metadata? key) :=
  data_transact _ (opening_data.selectMeta key)

lemma data_find? (scope : StoreId) (timestamp : Int64) : Respects SameData (find? scope timestamp) := by
  refine data_transact _ ((opening_data.selectChunk _).bind fun row => ?_)
  split
  · exact respects_pure _
  · exact (data_loadChunk _ _ _).bind fun _ => respects_pure _

lemma data_findBetween (scope : StoreId) (first last : Int64) :
    Respects SameData (findBetween scope first last) :=
  data_transact _ ((opening_data.selectChunks _ _).bind fun rows => data_loadChunks scope rows)

lemma data_epoch : Respects SameData epoch := by
  apply (data_metadata? _).bind
  intro text
  split
  · exact respects_pure _
  · split
    · exact respects_pure _
    · exact respects_throw _

lemma data_setEpoch (n : Int64) : Respects SameData (setEpoch n) :=
  (data_transact true (opening_data.insertEpoch data_insertMeta n)).checked _ _

lemma data_putMetadata (key value : String) : Respects SameData (putMetadata key value) :=
  (data_transact true (data_insertMeta key value)).checked _ _

lemma data_serve (scope : StoreId) {r : Request} (h : ∀ chunk, r ≠ .put chunk) :
    Respects SameData (serve scope r) := by
  cases r with
  | put chunk => exact absurd rfl (h chunk)
  | find t => exact (data_find? scope t).map _
  | findBetween t u => exact (data_findBetween scope t u).map _
  | maxTimestamp => exact (data_transact _ opening_data.selectMaxTimestamp).map _
  | epoch => exact data_epoch.map _
  | setEpoch n => exact (data_setEpoch n).map _
  | metadata k => exact (data_metadata? k).map _
  | putMetadata k v => exact (data_putMetadata k v).map _

end ChunkStore.Plain
