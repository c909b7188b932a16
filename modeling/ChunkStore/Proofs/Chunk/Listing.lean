import ChunkStore.Chunk.Listing
import ChunkStore.Proofs.Chunk.Calls
import ChunkStore.Proofs.Chunk.Lazy
import ChunkStore.Proofs.Json

/-!
A chunk that was built is listed with what was set, and the listing gives away all of the chunk but
the store that its descriptor belongs to.
-/

namespace ChunkStore

open ChunkBuilder (Assigns ReadsBack)

lemma Encoding.ofName?_name : ∀ e : Encoding, ofName? e.name = some e := by
  intro e
  cases e <;> decide +kernel

lemma Encoding.name_injective {e e' : Encoding} (h : e.name = e'.name) : e = e' := by
  simpa [ofName?_name] using congrArg ofName? h

def FieldValue.blank : ValueKind → FieldValue
  | .binary => binary []
  | .text => text ""
  | .integers => integers []

inductive Encoding.Shows : Encoding → FieldValue → Json → Prop
  | binary {bytes : Bytes} {digits : String} (h : Hex.decode? digits.toList = some bytes)
    (hlen : digits.length = 2 * bytes.length) (hlower : ∀ c ∈ digits.toList, c.toLower = c) :
    Shows .binary (.binary bytes) (.text digits)
  | text (s : String) : Shows .text (.text s) (.text s)
  | varbyte (vs : List Int32) :
    Shows .varbyte (.integers vs) (.list (vs.map fun v => .integer v.toInt))
  | deltaVarbyte (vs : List Int32) :
    Shows .deltaVarbyte (.integers vs) (.list (vs.map fun v => .integer v.toInt))
  | noData {v : FieldValue} (hv : v.size = 0) : Shows .noData v .null
  | centerFiltered {v : FieldValue} (hv : v.size = 0) : Shows .centerFiltered v .null

namespace ChunkBuilder

def assigned (vs : List (Int32 × FieldValue)) (t : Track) : FieldValue :=
  (vs.lookup t.id).getD (.blank t.encoding.kind)

end ChunkBuilder

namespace Chunk

open Attempt ChunkBuilder

variable {d : Descriptor} {time : Int64} {payload : Bytes} {c : Chunk} {t u : Track}
  {vs ws : List (Int32 × FieldValue)}

lemma congruent_valueJson (t : Track) : Congruent (Alike d time payload) (valueJson t) := by
  rw [valueJson.eq_def]
  cases t.encoding with
  | binary => exact (congruent_readField? _ _).map _
  | text => exact (congruent_readField? _ _).map _
  | varbyte | deltaVarbyte => exact (congruent_readField? _ _).map _
  | noData | centerFiltered => exact congruent_pure _

lemma shows_binary (bytes : Bytes) :
    Encoding.binary.Shows (.binary bytes) (.text (Hex.text bytes)) := by
  refine .binary ?_ ?_ ?_
  · rw [Hex.text, String.toList_ofList, Hex.decode?_encode]
  · rw [Hex.text, String.length_ofList, Hex.length_encode]
  · intro c hc
    rw [Hex.text, String.toList_ofList] at hc
    exact Hex.toLower_of_mem_encode hc

lemma outcome_orNull {α : Type} {x : Attempt Chunk (Option α)} {a : α}
    (h : outcome (x c) = .ok (some a)) (f : α → Json) :
    outcome ((orNull f <$> x) c) = .ok (f a) := by
  rw [outcome_map, h]
  rfl

lemma outcome_valueJson {v : FieldValue} (ht : t.Takes v) (h : c.Gives t.id v) :
    ∃ shown, outcome (valueJson t c) = .ok shown ∧ t.encoding.Shows v shown := by
  obtain ⟨id, e⟩ := t
  cases v with
  | binary bytes =>
    obtain rfl : e = .binary := ht
    exact ⟨_, outcome_orNull h _, shows_binary bytes⟩
  | text s =>
    obtain rfl : e = .text := ht
    exact ⟨_, outcome_orNull h _, .text s⟩
  | integers ns =>
    obtain rfl | rfl : e = .varbyte ∨ e = .deltaVarbyte := ht
    · exact ⟨_, outcome_orNull h _, .varbyte ns⟩
    · exact ⟨_, outcome_orNull h _, .deltaVarbyte ns⟩

lemma outcome_valueJson_blank (h : c.GivesEmpty t) : ∃ shown, outcome (valueJson t c) = .ok shown ∧
    t.encoding.Shows (.blank t.encoding.kind) shown := by
  obtain ⟨id, e⟩ := t
  cases e with
  | binary => exact ⟨_, outcome_orNull h _, shows_binary []⟩
  | text => exact ⟨_, outcome_orNull h _, .text ""⟩
  | varbyte => exact ⟨_, outcome_orNull h _, .varbyte []⟩
  | deltaVarbyte => exact ⟨_, outcome_orNull h _, .deltaVarbyte []⟩
  | noData => exact ⟨_, rfl, .noData rfl⟩
  | centerFiltered => exact ⟨_, rfl, .centerFiltered rfl⟩

lemma size_blank (kind : ValueKind) : (FieldValue.blank kind).size = 0 := by
  cases kind <;> rfl

def Lists (vs : List (Int32 × FieldValue)) (t : Track) (j : Json) : Prop :=
  ∃ shown, t.encoding.Shows (assigned vs t) shown ∧
    j = .object [("encoding", .text t.encoding.name), ("id", .integer t.id.toInt),
      ("length", .integer (assigned vs t).size), ("values", shown)]

lemma readings (hvs : Assigns d vs) (hread : ReadsBack c vs) (hc : c.descriptor = d)
    (ht : t ∈ d.tracks) : c.HasSize t.id (assigned vs t).size ∧
      ∃ shown, outcome (valueJson t c) = .ok shown ∧ t.encoding.Shows (assigned vs t) shown := by
  by_cases hmem : t.id ∈ vs.map Prod.fst
  · obtain ⟨⟨id, v⟩, hv, hid⟩ := List.mem_map.1 hmem
    obtain rfl : id = t.id := hid
    obtain ⟨u, hu, htakes⟩ := hvs.takes _ hv
    obtain rfl : t = u := Option.some.inj ((TrackList.find?_of_mem ht).symm.trans hu)
    obtain ⟨hgives, hsize⟩ := hread.assigned _ hv
    rw [assigned, lookup_of_mem hvs.nodup hv]
    exact ⟨hsize, outcome_valueJson htakes hgives⟩
  · obtain ⟨hempty, hsize⟩ := hread.unassigned t (hc ▸ ht) hmem
    rw [assigned, lookup_eq_none hmem, Option.getD_none, size_blank]
    exact ⟨hsize, outcome_valueJson_blank hempty⟩

lemma trackJson_run (hc : StateOf d time payload c)
    (hvs : Assigns d vs) (hread : ReadsBack (ofParts d time payload) vs) (ht : t ∈ d.tracks) :
    ∃ j c', trackJson true t c = .ok j c' ∧ StateOf d time payload c' ∧ Lists vs t j := by
  -- both are read as by a new chunk, though the index may be kept by now
  obtain ⟨hsize, shown, hvalue, hshown⟩ := readings hvs hread rfl ht
  have hfieldSize : Congruent (Alike d time payload) (fieldSize? t.id) := congruent_readField? t.id _
  obtain ⟨c₁, hrun₁, hc₁⟩ := hc.run hfieldSize hsize
  obtain ⟨c₂, hrun₂, hc₂⟩ := hc₁.run (congruent_valueJson t) hvalue
  refine ⟨_, c₂, ?_, hc₂, shown, hshown, rfl⟩
  rw [trackJson, bind_ok hrun₁, if_pos rfl, bind_ok hrun₂]
  rfl

lemma tracksJson_run (hc : StateOf d time payload c) (hvs : Assigns d vs)
    (hread : ReadsBack (ofParts d time payload) vs) {ts : List Track} (hts : ∀ t ∈ ts, t ∈ d.tracks) :
    ∃ js c', tracksJson true ts c = .ok js c' ∧ StateOf d time payload c' ∧
      List.Forall₂ (Lists vs) ts js := by
  induction ts generalizing c with
  | nil => exact ⟨[], c, rfl, hc, .nil⟩
  | cons t ts ih =>
    obtain ⟨j, c₁, hrun₁, hc₁, hj⟩ := trackJson_run hc hvs hread (hts t (by simp))
    obtain ⟨js, c₂, hrun₂, hc₂, hjs⟩ := ih hc₁ fun u hu => hts u (by simp [hu])
    refine ⟨j :: js, c₂, ?_, hc₂, .cons hj hjs⟩
    rw [tracksJson, bind_ok hrun₁, bind_ok hrun₂]
    rfl

def listing (d : Descriptor) (time : Int64) (entries : List Json) : Json :=
  .object [("descriptor_id", .integer d.persistedId.toNat), ("timestamp", .integer time.toInt),
    ("tracks", .list entries)]

lemma toJson_run (hc : StateOf d time payload c) (hvs : Assigns d vs)
    (hread : ReadsBack (ofParts d time payload) vs) :
    ∃ entries, outcome (toJson true c) = .ok (listing d time entries) ∧
      List.Forall₂ (Lists vs) d.tracks entries := by
  obtain ⟨entries, c', hrun, -, hentries⟩ := tracksJson_run hc hvs hread fun t ht => ht
  refine ⟨entries, ?_, hentries⟩
  rw [← hc.descriptor] at hrun
  simp only [toJson]
  rw [bind_ok hrun, hc.descriptor, hc.timestamp]
  rfl

def printed (c : Chunk) : Except Error String := (outcome (toJson true c)).map Json.compact

lemma printed_eq {j : Json} (h : outcome (toJson true c) = .ok j) : printed c = .ok j.compact := by
  rw [printed, h]
  rfl

lemma content?_eq_assigned (vs : List (Int32 × FieldValue)) (t : Track) :
    content? vs t = (some (assigned vs t)).filter fun v => !v.isEmpty := by
  rw [content?, assigned]
  cases vs.lookup t.id with
  | some v => rfl
  | none =>
    have hblank : (FieldValue.blank t.encoding.kind).isEmpty = true := decide_eq_true (size_blank _)
    rw [Option.getD_none, Option.filter_some, hblank]
    rfl

lemma integersJson_inj {ns ms : List Int32} (h : integersJson ns = integersJson ms) : ns = ms := by
  refine List.map_injective_iff.2 (fun n m hnm => ?_) (Json.list.inj h)
  exact Int32.toInt_inj.1 (Json.integer.inj hnm)

lemma exists_integers {e : Encoding} {v : FieldValue} {j : Json}
    (he : e = .varbyte ∨ e = .deltaVarbyte) (h : e.Shows v j) :
    ∃ ns, v = .integers ns ∧ j = integersJson ns := by
  cases h with
  | varbyte ns => exact ⟨ns, rfl, rfl⟩
  | deltaVarbyte ns => exact ⟨ns, rfl, rfl⟩
  | _ => simp at he

lemma eq_of_shows_integers {e : Encoding} {v w : FieldValue} {j : Json}
    (he : e = .varbyte ∨ e = .deltaVarbyte) (hv : e.Shows v j) (hw : e.Shows w j) : v = w := by
  obtain ⟨ns, rfl, rfl⟩ := exists_integers he hv
  obtain ⟨ms, rfl, hj⟩ := exists_integers he hw
  rw [integersJson_inj hj]

lemma shows_inj {e : Encoding} {v w : FieldValue} {j : Json} (hv : e.Shows v j) (hw : e.Shows w j) :
    v = w ∨ v.size = 0 ∧ w.size = 0 := by
  cases e with
  | binary =>
    obtain ⟨h⟩ := hv
    obtain ⟨h'⟩ := hw
    exact .inl (congrArg _ (Option.some.inj (h.symm.trans h')))
  | text =>
    cases hv
    cases hw
    exact .inl rfl
  | varbyte => exact .inl (eq_of_shows_integers (.inl rfl) hv hw)
  | deltaVarbyte => exact .inl (eq_of_shows_integers (.inr rfl) hv hw)
  | noData =>
    cases hv with
    | noData h =>
      cases hw with
      | noData h' => exact .inr ⟨h, h'⟩
  | centerFiltered =>
    cases hv with
    | centerFiltered h =>
      cases hw with
      | centerFiltered h' => exact .inr ⟨h, h'⟩

lemma lists_inj {j : Json} (ht : Lists vs t j) (hu : Lists ws u j) :
    t = u ∧ content? vs t = content? ws t := by
  obtain ⟨shown, hshown, rfl⟩ := ht
  obtain ⟨shown', hshown', hj⟩ := hu
  simp only [Json.object.injEq, List.cons.injEq, Prod.mk.injEq, Json.text.injEq, Json.integer.injEq,
    true_and, and_true] at hj
  obtain ⟨hname, hid, -, rfl⟩ := hj
  have heq : t = u := by
    obtain ⟨id, e⟩ := t
    obtain ⟨id', e'⟩ := u
    obtain rfl := Int32.toInt_inj.1 hid
    obtain rfl := Encoding.name_injective hname
    rfl
  obtain rfl := heq
  refine ⟨rfl, ?_⟩
  rw [content?_eq_assigned, content?_eq_assigned]
  obtain hv | ⟨hv, hw⟩ := shows_inj hshown hshown'
  · rw [hv]
  · simp [Option.filter_some, FieldValue.isEmpty, hv, hw]

lemma entries_inj {ts us : List Track} {js : List Json} (hts : List.Forall₂ (Lists vs) ts js)
    (hus : List.Forall₂ (Lists ws) us js) :
    ts = us ∧ ∀ t ∈ ts, content? vs t = content? ws t := by
  induction hts generalizing us with
  | nil =>
    cases hus
    exact ⟨rfl, by simp⟩
  | cons ht _ ih =>
    cases hus with
    | cons hu hus =>
      obtain ⟨rfl, hcontent⟩ := lists_inj ht hu
      obtain ⟨rfl, hrest⟩ := ih hus
      exact ⟨rfl, List.forall_mem_cons.2 ⟨hcontent, hrest⟩⟩

lemma exists_listing {calls : List Call} {chunk : Chunk} {b : ChunkBuilder}
    (h : build (runAll calls (.empty d)) = .ok chunk b) :
    ∃ time, lastTimestamp? (log (.empty d) calls) = some time ∧
      chunk = ofParts d time
        (ChunkBuilder.payload (d.tracks.map (fieldOf (accepted (log (.empty d) calls))))) ∧
      ∀ requests, ∃ entries,
        outcome (toJson true (afterAll requests chunk)) = .ok (listing d time entries) ∧
        List.Forall₂ (Lists (accepted (log (.empty d) calls))) d.tracks entries := by
  obtain ⟨heq, hvs⟩ := logged_runAll d calls
  rw [heq] at h
  obtain ⟨time, htime, rfl, -, hoffsets⟩ := of_build_holding h
  have hread := readsBack_payload hvs (lastOffset_le hoffsets) time
  exact ⟨time, htime, rfl, fun requests => toJson_run (StateOf.fresh.afterAll requests) hvs hread⟩

theorem lists_what_was_set (d : Descriptor) (calls : List Call) {chunk : Chunk} {b : ChunkBuilder}
    (h : build (runAll calls (.empty d)) = .ok chunk b) :
    (d.tracks.Pairwise fun t u => t.id < u.id) ∧
    (∃ time, lastTimestamp? (log (.empty d) calls) = some time ∧ ∀ requests, ∃ entries,
      outcome (toJson true (afterAll requests chunk)) = .ok (listing d time entries) ∧
      List.Forall₂ (Lists (accepted (log (.empty d) calls))) d.tracks entries) ∧
    ∀ chunk', chunk'.Built → printed chunk = printed chunk' →
      chunk.timestamp = chunk'.timestamp ∧
      chunk.descriptor.toTrackList = chunk'.descriptor.toTrackList ∧
      chunk.descriptor.persistedId = chunk'.descriptor.persistedId ∧
      chunk.payload = chunk'.payload := by
  obtain ⟨time, htime, rfl, hlisted⟩ := exists_listing h
  refine ⟨d.ascending, ⟨time, htime, hlisted⟩, ?_⟩
  rintro chunk' ⟨d', calls', b', h'⟩ htext
  obtain ⟨time', -, rfl, hlisted'⟩ := exists_listing h'
  obtain ⟨entries, hrun, hentries⟩ := hlisted []
  obtain ⟨entries', hrun', hentries'⟩ := hlisted' []
  have hlines := (printed_eq hrun).symm.trans (htext.trans (printed_eq hrun'))
  have hlisting := Json.compact_injective (Except.ok.inj hlines)
  simp only [listing, Json.object.injEq, List.cons.injEq, Prod.mk.injEq, Json.integer.injEq,
    Json.list.injEq, Int.natCast_inj, true_and, and_true] at hlisting
  obtain ⟨hid, htimes, rfl⟩ := hlisting
  obtain ⟨htracks, hcontent⟩ := entries_inj hentries hentries'
  refine ⟨Int64.toInt_inj.1 htimes, TrackList.tracks_injective htracks, UInt64.toNat_inj.1 hid, ?_⟩
  -- an unset value and an empty one are listed alike, and they are no bytes either
  change ChunkBuilder.payload _ = ChunkBuilder.payload _
  rw [← htracks]
  exact payload_congr hcontent

def sampleLine : String :=
  "\x7b\"descriptor_id\":0,\"timestamp\":9,\"tracks\":[" ++
  "\x7b\"encoding\":\"BINARY\",\"id\":-7,\"length\":1,\"values\":\"ff\"\x7d," ++
  "\x7b\"encoding\":\"INT32_DELTA_VARBYTE\",\"id\":3,\"length\":2,\"values\":[300,-1]\x7d," ++
  "\x7b\"encoding\":\"NONE\",\"id\":42,\"length\":0,\"values\":null\x7d," ++
  "\x7b\"encoding\":\"UTF8_STRING\",\"id\":50,\"length\":0,\"values\":\"\"\x7d]\x7d"

lemma printed_sample {calls : List Call} (h : calls = samplePlain ∨ calls = sampleMixed) :
    (outcome (build (runAll calls (.empty sampleDescriptor)))).bind printed = .ok sampleLine := by
  obtain rfl | rfl := h <;> decide +kernel

theorem lists_what_was_set_sample : ∃ chunk b chunk' b',
    build (runAll samplePlain (.empty sampleDescriptor)) = .ok chunk b ∧
    build (runAll sampleMixed (.empty sampleDescriptor)) = .ok chunk' b' ∧
    printed chunk = .ok sampleLine ∧ printed chunk' = .ok sampleLine ∧
    chunk.payload = chunk'.payload := by
  have hline := printed_sample (.inl rfl)
  have hline' := printed_sample (.inr rfl)
  cases hbuild : build (runAll samplePlain (.empty sampleDescriptor)) with
  | error e b =>
    rw [hbuild] at hline
    cases hline
  | ok chunk b =>
    cases hbuild' : build (runAll sampleMixed (.empty sampleDescriptor)) with
    | error e b' =>
      rw [hbuild'] at hline'
      cases hline'
    | ok chunk' b' =>
      rw [hbuild] at hline
      rw [hbuild'] at hline'
      obtain ⟨-, -, hsame⟩ := lists_what_was_set sampleDescriptor samplePlain hbuild
      have hpayload := (hsame chunk' ⟨_, _, _, hbuild'⟩ (hline.trans hline'.symm)).2.2.2
      exact ⟨chunk, b, chunk', b', rfl, rfl, hline, hline', hpayload⟩

end Chunk
end ChunkStore
