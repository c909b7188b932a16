import ChunkStore.Proofs.DescriptorBuilder
import ChunkStore.Proofs.Store.History

namespace ChunkStore

open Attempt

namespace Container

variable {c : Container} {h : History}

lemma Records.eq_iff (hc : c.Records h) {id id' : UInt64} {l l' : TrackList} (hl : c.Holds id l)
    (hl' : c.Holds id' l') : id = id' ↔ l = l' := by
  obtain ⟨i, hi, rfl⟩ := hc.holds_iff.1 hl
  obtain ⟨j, hj, rfl⟩ := hc.holds_iff.1 hl'
  exact History.number_inj hc.few hi hj

lemma Records.descriptorId_eq_iff (hc : c.Records h) {t u : Int64} {x y : Stored} {r s : ChunkRow}
    (hx : h.last? t = some x) (hy : h.last? u = some y) (hr : c.chunks.rows.find? t = some r)
    (hs : c.chunks.rows.find? u = some s) :
    r.descriptorId = s.descriptorId ↔ ∀ track, track ∈ x.tracks.tracks ↔ track ∈ y.tracks.tracks := by
  have hmr := hc.chunks t
  have hms := hc.chunks u
  rw [hx, hr] at hmr
  rw [hy, hs] at hms
  rw [hc.eq_iff hmr.2 hms.2]
  constructor
  · intro heq track
    rw [heq]
  · exact TrackList.ext_mem

end Container

namespace World

variable {w : World} {h : History}

lemma container_of_has {c : Container} (hf : w.file.Has c) : w.container = c := by
  obtain ⟨hm, rfl⟩ | ⟨held, hc⟩ := hf
  · rw [container, hm]
    rfl
  · rw [container, hc]
    rfl

lemma Reached.records (hw : Reached w h) : w.container.Records h := by
  obtain ⟨c, hf, hc, -⟩ := hw.consistent
  rwa [container_of_has hf]

structure Interns (w : World) (h : History) : Prop where
  rows : w.container.descriptors.rows.entries = h.numbering
  lists : h.trackLists.Nodup ∧ ∀ l, l ∈ h.trackLists ↔ ∃ x ∈ h.stored, x.tracks = l
  chunks : ∀ t, w.container.Matches (h.last? t) (w.container.chunks.rows.find? t)
  same : ∀ {t u x y r s}, h.last? t = some x → h.last? u = some y →
    w.container.chunks.rows.find? t = some r → w.container.chunks.rows.find? u = some s →
      (r.descriptorId = s.descriptorId ↔ ∀ track, track ∈ x.tracks.tracks ↔ track ∈ y.tracks.tracks)
  distinct : ∀ {id id' l}, w.container.Holds id l → w.container.Holds id' l → id = id'

lemma Reached.interns (hw : Reached w h) : w.Interns h where
  rows := hw.records.numbered
  lists := ⟨h.nodup_trackLists, fun _ => History.mem_trackLists⟩
  chunks := hw.records.chunks
  same := hw.records.descriptorId_eq_iff
  distinct hl hl' := (hw.records.eq_iff hl hl').2 rfl

theorem numbers_track_lists (hw : Reached w h) :
    w.Interns h ∧
      (∀ w' h', Reached w' h' → h <:+ h' →
        w.container.descriptors.rows.entries <+: w'.container.descriptors.rows.entries) ∧
      ∀ (b : DescriptorBuilder) (d : Descriptor), b.build.1 = .ok d ↔
        b.added.Perm d.tracks ∧ b.added.length ≤ TrackList.maxSize ∧ d.scope = b.scope ∧
          d.persistedId = 0 := by
  refine ⟨hw.interns, fun w' h' hw' hs => ?_, fun b d => DescriptorBuilder.build_eq_ok⟩
  rw [hw.interns.rows, hw'.interns.rows]
  exact History.prefix_numbering hs

def asked (p : (Store × File) × History) (r : Request) : (Store × File) × History :=
  (state ((Operation.ask r).run p.1), ⟨.ask r, outcome ((Operation.ask r).run p.1)⟩ :: p.2)

lemma reached_puts {p : (Store × File) × History} (hp : Reached ⟨p.1.2, [p.1.1]⟩ p.2)
    {chunks : List Chunk} (hb : ∀ chunk ∈ chunks, ∃ b : DescriptorBuilder,
      b.build.1 = .ok chunk.descriptor) :
    Reached ⟨((chunks.map .put).foldl asked p).1.2, [((chunks.map .put).foldl asked p).1.1]⟩
      ((chunks.map .put).foldl asked p).2 := by
  induction chunks generalizing p with
  | nil => exact hp
  | cons chunk chunks ih =>
    refine ih ?_ fun c hc => hb c (by simp [hc])
    apply Reached.call 0 (.ask (.put chunk)) hp rfl
    rintro _ session ⟨⟩ -
    obtain ⟨b, hbuild⟩ := hb chunk (by simp)
    exact .built hbuild

def twoTracks (scope : Option StoreId) : Descriptor :=
  ⟨⟨[⟨3, .text⟩, ⟨5, .varbyte⟩], by decide, by decide⟩, scope, 0⟩

def oneTrack : Descriptor := ⟨⟨[⟨5, .varbyte⟩], List.pairwise_singleton _ _, by decide⟩, none, 0⟩

def sampleChunks : List Chunk :=
  [.ofParts (twoTracks none) 7 [1], .ofParts oneTrack 8 [2],
    .ofParts (twoTracks (some (.fresh .zero))) 9 [3]]

def samplePuts : (Store × File) × History :=
  (sampleChunks.map .put).foldl asked (sampleOpened, sampleHistory.tail)

def sampleWorld : World := ⟨samplePuts.1.2, [samplePuts.1.1]⟩

/-- The tracks of the first and the last chunk were added in different orders, for different stores. -/
theorem numbers_track_lists_sample :
    Reached sampleWorld samplePuts.2 ∧
      sampleWorld.container.descriptors.rows.entries =
        [(1, (twoTracks none).encode), (2, oneTrack.encode)] ∧
      ∃ r s, sampleWorld.container.chunks.rows.find? 7 = some r ∧
        sampleWorld.container.chunks.rows.find? 9 = some s ∧ r.descriptorId = s.descriptorId := by
  have hopened : Reached ⟨sampleOpened.2, [sampleOpened.1]⟩ sampleHistory.tail := by
    apply Reached.call 0 sampleOpen (.create "chunks" {} .start) rfl
    rintro chunk session ⟨⟩
  have hreached : Reached sampleWorld samplePuts.2 := by
    apply reached_puts hopened
    intro chunk hc
    simp only [sampleChunks, List.mem_cons, List.not_mem_nil, or_false] at hc
    obtain rfl | rfl | rfl := hc
    · exact ⟨⟨[⟨3, .text⟩, ⟨5, .varbyte⟩], none⟩, DescriptorBuilder.build_eq_ok.2 (by decide)⟩
    · exact ⟨⟨[⟨5, .varbyte⟩], none⟩, DescriptorBuilder.build_eq_ok.2 (by decide)⟩
    · exact ⟨⟨[⟨5, .varbyte⟩, ⟨3, .text⟩], some (.fresh .zero)⟩,
        DescriptorBuilder.build_eq_ok.2 (by decide +kernel)⟩
  have hw := (numbers_track_lists hreached).1
  refine ⟨hreached, hw.rows.trans (by decide +kernel), ?_⟩
  have hrow (t : Int64) (h : (sampleWorld.container.chunks.rows.find? t).isSome) :=
    Option.isSome_iff_exists.1 h
  have hlast (t : Int64) (h : (samplePuts.2.last? t).isSome) := Option.isSome_iff_exists.1 h
  obtain ⟨r, hr⟩ := hrow 7 (by decide +kernel)
  obtain ⟨s, hs⟩ := hrow 9 (by decide +kernel)
  obtain ⟨x, hx⟩ := hlast 7 (by decide +kernel)
  obtain ⟨y, hy⟩ := hlast 9 (by decide +kernel)
  refine ⟨r, s, hr, hs, (hw.same hx hy hr hs).2 ?_⟩
  have htracks : (samplePuts.2.last? 7).map Stored.tracks =
      (samplePuts.2.last? 9).map Stored.tracks := by decide +kernel
  rw [hx, hy] at htracks
  have heq : x.tracks = y.tracks := Option.some.inj htracks
  simp [heq]

end World
end ChunkStore
