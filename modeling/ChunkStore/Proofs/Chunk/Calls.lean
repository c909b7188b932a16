import ChunkStore.Chunk.Calls
import ChunkStore.Proofs.Chunk.RoundTrip

/-!
A chunk builder under any calls. Calls that fail change nothing. What the builder holds is told by
the others since it was last emptied: the latest timestamp, and for each track at most one value.
-/

namespace ChunkStore

namespace Track

variable {t : Track} {v : FieldValue}

lemma error_of_encode {e : Error} (h : t.encode v = .error e) :
    e = .unsupportedEncoding t.encoding ∨ e = .encodingMismatch t.id t.encoding v.kind := by
  cases v <;> cases he : t.encoding <;>
    simp_all [encode, checkKind, FieldValue.kind, ValueKind.accepts, Encoding.isInteger,
      Codec.ofEncoding, bind, Except.bind, pure, Except.pure]

lemma eq_nil_of_encode {data : Bytes} (h : t.encode v = .ok data) (hv : v.size = 0) : data = [] := by
  have ht : t.Takes v := encode_ok_iff.1 ⟨data, h⟩
  cases v with
  | binary bytes =>
    obtain rfl : bytes = data := by simpa [encode_binary ht] using h
    exact List.length_eq_zero_iff.1 hv
  | text s =>
    obtain rfl : Utf8.ofString s = data := by simpa [encode_text ht] using h
    exact List.length_eq_zero_iff.1 hv
  | integers vs =>
    obtain ⟨codec, hc⟩ := codec_of_takes ht
    obtain rfl : vs = [] := List.length_eq_zero_iff.1 hv
    obtain rfl : codec.compress [] = data := by simpa [encode_integers hc] using h
    cases codec <;> rfl

end Track

namespace ChunkBuilder

variable {d : Descriptor} {timestamp : Option Int64} {vs ws : List (Int32 × FieldValue)} {t : Track}
  {b b' : ChunkBuilder} {e : Error}

inductive FailsWith (b : ChunkBuilder) : Call → Error → Prop
  | negativeTimestamp {t : Int64} (h : t < 0) :
    FailsWith b (.setTimestamp t) (.invalidArgument (.negativeTimestamp t))
  | unknownTrack {id : Int32} {v : FieldValue} (h : b.descriptor.find? id = none) :
    FailsWith b (.set id v) (.unknownTrack id)
  | duplicateField {id : Int32} {v : FieldValue} {i : Nat} (hi : b.descriptor.indexOf? id = some i)
    (h : (b.fields.getD i none).isSome) : FailsWith b (.set id v) (.duplicateField id)
  | tooManyElements {id : Int32} {v : FieldValue} (h : maxIndexed < v.size) :
    FailsWith b (.set id v) (.invalidArgument (.tooManyElements id v.size))
  | unsupportedEncoding {id : Int32} {v : FieldValue} {t : Track}
    (hfind : b.descriptor.find? id = some t) (h : ¬ t.Takes v) :
    FailsWith b (.set id v) (.unsupportedEncoding t.encoding)
  | encodingMismatch {id : Int32} {v : FieldValue} {t : Track}
    (hfind : b.descriptor.find? id = some t) (h : ¬ t.Takes v) :
    FailsWith b (.set id v) (.encodingMismatch id t.encoding v.kind)
  | missingTimestamp (h : b.timestamp = none) : FailsWith b .build .missingTimestamp
  | fieldsTooLarge {offset : Nat} (hmem : offset ∈ offsets 0 b.fields) (h : maxIndexed < offset) :
    FailsWith b .build (.invalidArgument (.fieldsTooLarge offset))

lemma of_setTimestamp_error {t : Int64} (h : setTimestamp t b = .error e b') :
    b' = b ∧ FailsWith b (.setTimestamp t) e := by
  rw [setTimestamp] at h
  split at h
  next ht =>
    obtain ⟨rfl, rfl⟩ := EStateM.Result.error.inj h
    exact ⟨rfl, .negativeTimestamp ht⟩
  · cases h

lemma of_set_error {id : Int32} {v : FieldValue} (h : set id v b = .error e b') :
    b' = b ∧ FailsWith b (.set id v) e := by
  cases hfind : b.descriptor.find? id with
  | none =>
    simp only [set, hfind] at h
    obtain ⟨rfl, rfl⟩ := EStateM.Result.error.inj h
    exact ⟨rfl, .unknownTrack hfind⟩
  | some t =>
    obtain ⟨i, hi, -⟩ := TrackList.indexOf?_of_find? hfind
    rw [set_run hfind hi] at h
    split at h
    next hset =>
      obtain ⟨rfl, rfl⟩ := EStateM.Result.error.inj h
      exact ⟨rfl, .duplicateField hi hset⟩
    · split at h
      next hsize =>
        obtain ⟨rfl, rfl⟩ := EStateM.Result.error.inj h
        exact ⟨rfl, .tooManyElements hsize⟩
      · split at h
        · cases h
        next e' he =>
          obtain ⟨rfl, rfl⟩ := EStateM.Result.error.inj h
          have ht : ¬ t.Takes v := fun ht => by
            obtain ⟨data, hdata⟩ := Track.encode_ok_iff.2 ht
            rw [hdata] at he
            cases he
          obtain rfl := TrackList.id_of_find? hfind
          obtain rfl | rfl := Track.error_of_encode he
          · exact ⟨rfl, .unsupportedEncoding hfind ht⟩
          · exact ⟨rfl, .encodingMismatch hfind ht⟩

lemma of_build_error (h : build b = .error e b') : b' = b ∧ FailsWith b .build e := by
  rw [build] at h
  split at h
  next ht =>
    obtain ⟨rfl, rfl⟩ := EStateM.Result.error.inj h
    exact ⟨rfl, .missingTimestamp ht⟩
  · split at h
    next offset hoffset =>
      obtain ⟨rfl, rfl⟩ := EStateM.Result.error.inj h
      exact ⟨rfl, .fieldsTooLarge (List.mem_of_find?_eq_some hoffset)
        (by simpa using List.find?_some hoffset)⟩
    · cases h

lemma of_run_error {call : Call} (h : call.run b = .error e b') : b' = b ∧ FailsWith b call e := by
  cases call with
  | setTimestamp t => exact of_setTimestamp_error (Attempt.of_map_error h)
  | set id v => exact of_set_error (Attempt.of_map_error h)
  | reset => cases h
  | build => exact of_build_error (Attempt.of_map_error h)

lemma of_build_holding {chunk : Chunk} (h : build (holding d timestamp vs) = .ok chunk b) :
    ∃ t, timestamp = some t ∧ chunk = .ofParts d t (payload (d.tracks.map (fieldOf vs))) ∧
      b = empty d ∧ ∀ o ∈ offsets 0 (d.tracks.map (fieldOf vs)), o ≤ maxIndexed := by
  cases timestamp with
  | none => cases h
  | some t =>
    simp only [build, holding] at h
    split at h
    · cases h
    next hoffsets =>
      obtain ⟨rfl, rfl⟩ := EStateM.Result.ok.inj h
      exact ⟨t, rfl, rfl, reset_holding (some t), fun o ho => by
        simpa using List.find?_eq_none.1 hoffsets o ho⟩

def Dated (b : ChunkBuilder) : Prop := ∀ t ∈ b.timestamp, 0 ≤ t

lemma dated_of_none (h : b.timestamp = none) : b.Dated := fun t ht => by
  rw [h] at ht
  cases ht

lemma Dated.call (hb : b.Dated) (call : Call) : (Attempt.state (call.run b)).Dated := by
  cases call with
  | setTimestamp t =>
    rw [Call.run, Attempt.state_map, setTimestamp]
    split
    · exact hb
    next ht =>
      intro u hu
      obtain rfl : t = u := by simpa using hu
      exact Int64.not_lt.1 ht
  | set id v =>
    rw [Call.run, Attempt.state_map]
    simp only [set]
    split
    · split
      · exact hb
      · split
        · exact hb
        · split
          · exact hb
          · exact hb
    · exact hb
  | reset => exact dated_of_none rfl
  | build =>
    rw [Call.run, Attempt.state_map]
    simp only [build]
    split
    · exact hb
    · split
      · exact hb
      · exact dated_of_none rfl

lemma dated_runAll (d : Descriptor) (calls : List Call) : (runAll calls (empty d)).Dated := by
  have hrun (calls : List Call) : ∀ {b : ChunkBuilder}, b.Dated → (runAll calls b).Dated := by
    induction calls with
    | nil => exact fun hb => hb
    | cons call calls ih => exact fun hb => ih (hb.call call)
  exact hrun calls (dated_of_none rfl)

inductive Runs (d : Descriptor) (timestamp : Option Int64) (vs : List (Int32 × FieldValue)) :
    Call → EStateM.Result Error ChunkBuilder (Option Chunk) → Prop
  | fails {call : Call} {e : Error} (h : FailsWith (holding d timestamp vs) call e) :
    Runs d timestamp vs call (.error e (holding d timestamp vs))
  | dates (t : Int64) : Runs d timestamp vs (.setTimestamp t) (.ok none (holding d (some t) vs))
  | sets {id : Int32} {v : FieldValue} (h : Assigns d (vs ++ [(id, v)])) :
    Runs d timestamp vs (.set id v) (.ok none (holding d timestamp (vs ++ [(id, v)])))
  | resets : Runs d timestamp vs .reset (.ok none (empty d))
  | builds {t : Int64} (h : timestamp = some t) : Runs d timestamp vs .build
    (.ok (some (.ofParts d t (payload (d.tracks.map (fieldOf vs))))) (empty d))

lemma runs_call (hvs : Assigns d vs) (call : Call) :
    Runs d timestamp vs call (call.run (holding d timestamp vs)) := by
  cases hrun : call.run (holding d timestamp vs) with
  | error e b =>
    obtain ⟨rfl, h⟩ := of_run_error hrun
    exact .fails h
  | ok r b =>
    cases call with
    | setTimestamp t =>
      obtain ⟨u, h, rfl⟩ := Attempt.of_map_ok hrun
      rw [setTimestamp] at h
      split at h
      · cases h
      · obtain ⟨-, rfl⟩ := EStateM.Result.ok.inj h
        exact .dates t
    | set id v =>
      obtain ⟨u, h, rfl⟩ := Attempt.of_map_ok hrun
      rw [eq_of_set_holding hvs h]
      exact .sets (of_set_holding hvs h)
    | reset =>
      obtain ⟨rfl, rfl⟩ := EStateM.Result.ok.inj hrun
      rw [reset_holding]
      exact .resets
    | build =>
      obtain ⟨chunk, h, rfl⟩ := Attempt.of_map_ok hrun
      obtain ⟨t, ht, rfl, rfl, -⟩ := of_build_holding h
      exact .builds ht

def Holds (d : Descriptor) (b : ChunkBuilder) : Prop :=
  ∃ timestamp vs, b = holding d timestamp vs ∧ Assigns d vs

lemma assigns_nil (d : Descriptor) : Assigns d [] := ⟨by simp, by simp, by simp⟩

lemma holds_empty (d : Descriptor) : Holds d (empty d) :=
  ⟨none, [], empty_eq_holding d, assigns_nil d⟩

lemma Holds.call (h : Holds d b) (call : Call) : Holds d (Attempt.state (call.run b)) := by
  obtain ⟨timestamp, vs, rfl, hvs⟩ := h
  have hruns : Runs d timestamp vs call _ := runs_call hvs call
  generalize call.run (holding d timestamp vs) = r at hruns ⊢
  cases hruns with
  | fails => exact ⟨timestamp, vs, rfl, hvs⟩
  | dates t => exact ⟨some t, vs, rfl, hvs⟩
  | sets hset => exact ⟨timestamp, _, rfl, hset⟩
  | resets => exact holds_empty d
  | builds => exact holds_empty d

lemma Holds.runAll (h : Holds d b) (calls : List Call) : Holds d (runAll calls b) := by
  induction calls generalizing b with
  | nil => exact h
  | cons call calls ih => exact ih (h.call call)

structure Event where
  call : Call
  outcome : Except Error (Option Chunk)

/-- What came of some calls, the latest first. -/
def log (b : ChunkBuilder) : List Call → List Event
  | [] => []
  | call :: calls =>
    log (Attempt.state (call.run b)) calls ++ [⟨call, Attempt.outcome (call.run b)⟩]

namespace Event

def empties : Event → Bool
  | ⟨.reset, .ok _⟩ | ⟨.build, .ok _⟩ => true
  | _ => false

def timestamp? : Event → Option Int64
  | ⟨.setTimestamp t, .ok _⟩ => some t
  | _ => none

def value? : Event → Option (Int32 × FieldValue)
  | ⟨.set id v, .ok _⟩ => some (id, v)
  | _ => none

end Event

def sinceEmptied (events : List Event) : List Event := events.takeWhile fun e => !e.empties

def lastTimestamp? (events : List Event) : Option Int64 :=
  (sinceEmptied events).findSome? Event.timestamp?

def accepted (events : List Event) : List (Int32 × FieldValue) :=
  (sinceEmptied events).filterMap Event.value?

structure Logged (d : Descriptor) (b : ChunkBuilder) (events : List Event) : Prop where
  eq : b = holding d (lastTimestamp? events) (accepted events)
  assigns : Assigns d (accepted events)

lemma logged_empty (d : Descriptor) : Logged d (empty d) [] :=
  ⟨empty_eq_holding d, assigns_nil d⟩

lemma Logged.call {events : List Event} (h : Logged d b events) (call : Call) :
    Logged d (Attempt.state (call.run b)) (⟨call, Attempt.outcome (call.run b)⟩ :: events) := by
  obtain ⟨rfl, hvs⟩ := h
  have hruns : Runs d (lastTimestamp? events) (accepted events) call _ := runs_call hvs call
  generalize call.run (holding d (lastTimestamp? events) (accepted events)) = r at hruns ⊢
  cases hruns with
  | @fails call e =>
    -- a failure is neither a timestamp nor a value, and it does not empty the builder
    cases call <;> exact ⟨rfl, hvs⟩
  | dates t => exact ⟨rfl, hvs⟩
  | @sets id v hset =>
    -- the latest value is the last one for the builder and the first one in the log
    have hperm : (accepted events ++ [(id, v)]).Perm ((id, v) :: accepted events) :=
      List.perm_append_singleton _ _
    refine ⟨?_, hset.perm hperm⟩
    rw [Attempt.state_ok, holding, fieldOf_perm hperm hset.nodup]
    rfl
  | resets => exact ⟨empty_eq_holding d, assigns_nil d⟩
  | builds => exact ⟨empty_eq_holding d, assigns_nil d⟩

lemma Logged.runAll {events : List Event} (h : Logged d b events) (calls : List Call) :
    Logged d (runAll calls b) (log b calls ++ events) := by
  induction calls generalizing b events with
  | nil => exact h
  | cons call calls ih =>
    rw [log, List.append_assoc]
    exact ih (h.call call)

lemma logged_runAll (d : Descriptor) (calls : List Call) :
    Logged d (runAll calls (empty d)) (log (empty d) calls) := by
  simpa using (logged_empty d).runAll calls

structure Reflects (d : Descriptor) (b : ChunkBuilder) (events : List Event) : Prop where
  descriptor : b.descriptor = d
  timestamp : b.timestamp = lastTimestamp? events
  once : ((accepted events).map Prod.fst).Nodup
  places : b.fields.length = d.size
  within : ∀ id i, d.indexOf? id = some i → i < b.fields.length
  fields : ∀ (i : Nat) t, d.tracks[i]? = some t → b.fields[i]? = some (fieldOf (accepted events) t)
  builds : ∀ chunk b', build b = .ok chunk b' → b' = empty d ∧ ∃ t, lastTimestamp? events = some t ∧
    chunk = .ofParts d t (payload (d.tracks.map (fieldOf (accepted events))))

lemma Logged.reflects {events : List Event} (h : Logged d b events) : Reflects d b events := by
  obtain ⟨rfl, hvs⟩ := h
  have hplaces : (holding d (lastTimestamp? events) (accepted events)).fields.length = d.size := by
    rw [holding, List.length_map, TrackList.size]
  refine ⟨rfl, rfl, hvs.nodup, hplaces, fun id i hi => ?_, fun i t ht => ?_, fun chunk b' hb => ?_⟩
  · rw [hplaces]
    exact (List.findIdx?_eq_some_iff_getElem.1 hi).1
  · rw [holding, List.getElem?_map, ht, Option.map_some]
  · obtain ⟨t, ht, hchunk, hb', -⟩ := of_build_holding hb
    exact ⟨hb', t, ht, hchunk⟩

/-- What a list of values has for a track, where no value is as good as an empty one. -/
def content? (vs : List (Int32 × FieldValue)) (t : Track) : Option FieldValue :=
  (vs.lookup t.id).filter fun v => !v.isEmpty

lemma blank_of_content? (h : content? vs t = none) :
    dataOf (fieldOf vs t) = [] ∧ sizeOf (fieldOf vs t) = 0 := by
  rw [fieldOf]
  cases hv : vs.lookup t.id with
  | none => exact ⟨rfl, rfl⟩
  | some v =>
    have hsize : v.size = 0 := by simpa [content?, hv, FieldValue.isEmpty] using h
    cases hdata : t.encode v with
    | error e => simp [hdata, dataOf, sizeOf]
    | ok data => simp [hdata, dataOf, sizeOf, hsize, Track.eq_nil_of_encode hdata hsize]

lemma lookup_of_content? {v : FieldValue} (h : content? vs t = some v) : vs.lookup t.id = some v :=
  (Option.filter_eq_some_iff.1 h).1

lemma fieldOf_of_content? (h : content? vs t = content? ws t) :
    dataOf (fieldOf vs t) = dataOf (fieldOf ws t) ∧ sizeOf (fieldOf vs t) = sizeOf (fieldOf ws t) := by
  cases hv : content? vs t with
  | none =>
    obtain ⟨hdata, hsize⟩ := blank_of_content? hv
    obtain ⟨hdata', hsize'⟩ := blank_of_content? (h.symm.trans hv)
    exact ⟨hdata.trans hdata'.symm, hsize.trans hsize'.symm⟩
  | some v =>
    rw [fieldOf, fieldOf, lookup_of_content? hv, lookup_of_content? (h.symm.trans hv)]
    exact ⟨rfl, rfl⟩

lemma offsets_congr {fs gs : List (Option EncodedField)} (h : fs.map dataOf = gs.map dataOf)
    (position : Nat) : offsets position fs = offsets position gs := by
  induction fs generalizing gs position with
  | nil =>
    obtain rfl : gs = [] := by simpa using h.symm
    rfl
  | cons f fs ih =>
    cases gs with
    | nil => simp at h
    | cons g gs =>
      obtain ⟨hfg, hrest⟩ := List.cons_eq_cons.1 h
      rw [offsets, offsets, hfg, ih hrest]

lemma dataOf_fieldOf_congr {ts : List Track} (h : ∀ t ∈ ts, content? vs t = content? ws t) :
    (ts.map (fieldOf vs)).map dataOf = (ts.map (fieldOf ws)).map dataOf := by
  simp only [List.map_map]
  exact List.map_congr_left fun t ht => (fieldOf_of_content? (h t ht)).1

lemma payload_congr {ts : List Track} (h : ∀ t ∈ ts, content? vs t = content? ws t) :
    payload (ts.map (fieldOf vs)) = payload (ts.map (fieldOf ws)) := by
  have hdata := dataOf_fieldOf_congr h
  have hsize : (ts.map (fieldOf vs)).map sizeOf = (ts.map (fieldOf ws)).map sizeOf := by
    simp only [List.map_map]
    exact List.map_congr_left fun t ht => (fieldOf_of_content? (h t ht)).2
  rw [payload, payload, offsets_congr hdata, hsize, List.flatMap_def, List.flatMap_def, hdata]

lemma outcome_build_congr (timestamp : Option Int64)
    (h : ∀ t ∈ d.tracks, content? vs t = content? ws t) :
    Attempt.outcome (build (holding d timestamp vs)) =
      Attempt.outcome (build (holding d timestamp ws)) := by
  cases timestamp with
  | none => rfl
  | some t =>
    simp only [build, holding, offsets_congr (dataOf_fieldOf_congr h) 0, payload_congr h]
    split <;> rfl

theorem determined_by_accepted (d : Descriptor) :
    (∀ b call e b', Call.run call b = .error e b' → b' = b ∧ FailsWith b call e) ∧
    (∀ calls, Reflects d (runAll calls (empty d)) (log (empty d) calls)) ∧
    ∀ calls calls',
      lastTimestamp? (log (empty d) calls) = lastTimestamp? (log (empty d) calls') →
      (∀ t ∈ d.tracks, content? (accepted (log (empty d) calls)) t =
        content? (accepted (log (empty d) calls')) t) →
      Attempt.outcome (build (runAll calls (empty d))) =
        Attempt.outcome (build (runAll calls' (empty d))) := by
  refine ⟨fun b call e b' h => of_run_error h, fun calls => (logged_runAll d calls).reflects,
    fun calls calls' htime hvalues => ?_⟩
  rw [(logged_runAll d calls).eq, (logged_runAll d calls').eq, htime]
  exact outcome_build_congr _ hvalues

def sampleMixed : List Call :=
  [.setTimestamp 5, .set 3 (.integers [1]), .build, .build, .set 50 (.text ""),
    .set 3 (.integers [300, -1]), .set 3 (.integers []), .setTimestamp 9, .set 42 (.binary []),
    .setTimestamp (-1), .set 4 (.text ""), .set (-7) (.binary [255])]

def samplePlain : List Call :=
  [.setTimestamp 9, .set (-7) (.binary [255]), .set 3 (.integers [300, -1])]

theorem determined_by_accepted_sample :
    Attempt.outcome (build (runAll sampleMixed (empty sampleDescriptor))) =
        Attempt.outcome (build (runAll samplePlain (empty sampleDescriptor))) ∧
      (Attempt.outcome (build (runAll samplePlain (empty sampleDescriptor)))).map Chunk.timestamp =
        .ok 9 ∧
      ∃ e b, Call.run (.setTimestamp (-1)) (runAll samplePlain (empty sampleDescriptor)) = .error e b ∧
        b = runAll samplePlain (empty sampleDescriptor) := by
  obtain ⟨hfails, -, hdetermined⟩ := determined_by_accepted sampleDescriptor
  refine ⟨hdetermined _ _ (by decide +kernel) (by decide +kernel), by decide +kernel, _, _, rfl, ?_⟩
  exact (hfails _ (.setTimestamp (-1)) _ _ rfl).1

end ChunkBuilder

def Chunk.Built (chunk : Chunk) : Prop := ∃ d calls b,
  ChunkBuilder.build (ChunkBuilder.runAll calls (.empty d)) = .ok chunk b

lemma Chunk.Built.timestamp_nonneg {chunk : Chunk} (h : chunk.Built) : 0 ≤ chunk.timestamp := by
  obtain ⟨d, calls, b, hbuild⟩ := h
  have hdated := ChunkBuilder.dated_runAll d calls
  simp only [ChunkBuilder.build] at hbuild
  split at hbuild
  · cases hbuild
  next t ht =>
    split at hbuild
    · cases hbuild
    · cases hbuild
      exact hdated t ht

end ChunkStore
