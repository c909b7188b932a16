import ChunkStore.Proofs.Store.Metadata

namespace ChunkStore

open Attempt Transaction

namespace Operation

variable {s : Store} {f : File}

lemma container_run (op : Operation) (s : Store) {f : File} (hf : ∃ held c, f = .container held c) :
    ∃ held c, (state (op.run (s, f))).2 = .container held c := by
  obtain ⟨held, c, rfl⟩ := hf
  cases op with
  | openFile writable entropy =>
    rw [run, state_map]
    by_cases hs : s.phase = .initial
    · obtain ⟨e, he⟩ | ⟨c, -, ⟨e, t, -, he⟩ | ⟨version, id, t, -, he⟩⟩ :=
        Store.openFile_cases hs writable entropy (.container held c)
      · exact ⟨held, c, by rw [he, state_error]⟩
      · exact ⟨false, c, by rw [he, state_error]⟩
      · exact ⟨true, t.commit c, by rw [he, state_ok]⟩
    · exact ⟨held, c, by rw [Store.openFile_again hs, state_error]⟩
  | close =>
    rw [run, state_ok, Store.close]
    split
    · exact ⟨false, c, rfl⟩
    · exact ⟨held, c, rfl⟩
    · exact ⟨held, c, rfl⟩
  | ask r => exact ⟨held, _, by rw [run, Store.onFile_container, state_mapState]⟩

lemma identified_run (hs : s.Backed f) (op : Operation) (hf : f.Identified) :
    (state (op.run (s, f))).2.Identified := by
  obtain ⟨held, c, text, rfl, hid⟩ := hf
  obtain ⟨held', d, hd⟩ := op.container_run s ⟨held, c, rfl⟩
  have hstays := (op.amends_run hs).stays (k := .id) (by decide) hid
  rw [hd] at hstays
  exact ⟨held', d, text, hd, hstays⟩

lemma backed_openFile (hs : s.phase = .initial) (writable : Bool) (entropy : Uuid) (f : File) :
    (state (Store.openFile writable entropy (s, f))).1.Backed
      (state (Store.openFile writable entropy (s, f))).2 := by
  obtain ⟨e, he⟩ | ⟨c, -, ⟨e, t, -, he⟩ | ⟨version, id, t, hu, he⟩⟩ :=
    Store.openFile_cases hs writable entropy f
  · rw [he]
    rintro ⟨⟩
  · rw [he]
    rintro ⟨⟩
  · rw [he]
    rintro -
    cases writable with
    | false =>
      obtain ⟨-, hreg, rfl⟩ := Upgrade.validate_ok hu
      obtain ⟨text, htext, -⟩ := hreg.id
      exact ⟨true, c, text, rfl, htext⟩
    | true => exact ⟨true, t.commit c, _, rfl, (Upgrade.upgraded_of_setUp hu).id⟩

theorem backed_run (hs : s.Backed f) (op : Operation) :
    (state (op.run (s, f))).1.Backed (state (op.run (s, f))).2 := by
  cases hn : s.session? with
  -- Whatever an open store is asked, the identity that was there when it was opened stays.
  | some session => exact fun _ => identified_run hs op (hs (by rw [hn]; rfl))
  | none =>
    cases op with
    | openFile writable entropy =>
      rw [run, state_map]
      by_cases hp : s.phase = .initial
      · exact backed_openFile hp writable entropy f
      · rwa [Store.openFile_again hp]
    | close =>
      rw [run, state_ok, Store.close]
      split
      · rintro ⟨⟩
      · rintro ⟨⟩
      · rintro ⟨⟩
    | ask r => rwa [ask_closed hn]

end Operation

structure Container.Follows (c : Container) (h : History) (d : Container) : Prop where
  stays : ∀ k : ReservedKey, k ≠ .version → ∀ text,
    c.metadata.rows.find? k.text = some text → d.metadata.rows.find? k.text = some text
  note : ∀ key, ReservedKey.isReserved key = false →
    d.metadata.rows.find? key = (h.note? key).or (c.metadata.rows.find? key)
  epoch : ∀ n ∈ h.epochs,
    d.metadata.rows.find? ReservedKey.epoch.text = some (Decimal.ofInt n.toInt)
  version : c.schemaVersion ≤ d.schemaVersion
  readable : c.metadata.read = .ok c.metadata.rows → d.metadata.read = .ok d.metadata.rows

namespace Container

variable {c d d' : Container} {h : History} {e : Event}

lemma follows_start (c : Container) : c.Follows [] c where
  stays _ _ _ hc := hc
  note _ _ := rfl
  epoch n hn := by cases hn
  version := Int32.le_refl _
  readable hc := hc

lemma Follows.amend (hf : c.Follows h d) (ha : d.Amends e d') : c.Follows (e :: h) d' where
  stays k hk text hc := ha.stays hk (hf.stays k hk text hc)
  note key hk := by
    -- the latest event is in front, and what it says comes first
    rw [ha.find?_free hk, hf.note key hk, ← Option.or_assoc, ← History.note?_append]
    rfl
  epoch n hn := by
    cases he : e.epoch? with
    | none =>
      rw [History.epochs_quiet he] at hn
      exact ha.stays (by decide) (hf.epoch n hn)
    | some m =>
      rw [History.epochs_set he] at hn
      rcases List.mem_cons.1 hn with rfl | hn
      · exact ha.find?_epoch he
      · exact ha.stays (by decide) (hf.epoch n hn)
  version := Int32.le_trans hf.version ha.schemaVersion_le
  readable hc := ha.readable (hf.readable hc)

end Container

namespace World

variable {start w w' : World} {h h' : History}

lemma Run.follows (hw : Run start w h) (hs : ∀ s ∈ start.stores, s.Backed start.file) :
    (∀ s ∈ w.stores, s.Backed w.file) ∧ start.container.Follows h w.container := by
  induction hw with
  | start => exact ⟨hs, Container.follows_start _⟩
  | @create w h path config _ ih =>
    refine ⟨fun s hm => ?_, ih.2⟩
    rcases List.mem_append.1 hm with hm | hm
    · exact ih.1 s hm
    · obtain rfl : s = Store.create path config := by simpa using hm
      rintro ⟨⟩
  | @call w h s i op _ hi ih =>
    obtain ⟨hb, hf⟩ := ih
    have hback := hb s (List.mem_of_getElem? hi)
    refine ⟨fun u hu => ?_, hf.amend (op.amends_run hback)⟩
    rcases List.mem_or_eq_of_mem_set hu with hu | rfl
    · exact fun ho => op.identified_run hback (hb u hu ho)
    · exact op.backed_run hback

structure Persists (w w' : World) : Prop where
  identity : ∀ text, w.container.metadata.rows.find? ReservedKey.id.text = some text →
    w'.container.metadata.rows.find? ReservedKey.id.text = some text
  version : ∀ {writing version t}, selectVersion (.begin writing w.container) = .ok version t →
    ∀ writing', ∃ version' t', selectVersion (.begin writing' w'.container) = .ok version' t' ∧
      version ≤ version'

lemma Run.persists (hw : Run w w' h) (hs : ∀ s ∈ w.stores, s.Backed w.file) : w.Persists w' := by
  obtain ⟨-, hf⟩ := hw.follows hs
  refine ⟨hf.stays .id (by decide), fun hversion writing' => ?_⟩
  obtain ⟨t', ht'⟩ := selectVersion_run (t := .begin writing' w'.container)
    (hf.readable (readable_of_selectVersion hversion))
  obtain ⟨rfl, -⟩ := selectVersion_ok hversion
  exact ⟨_, t', ht', hf.version⟩

structure Remembers (c : Container) (h : History) (w : World) : Prop where
  epoch : ∀ n ∈ h.epochs, ∀ s ∈ w.stores, s.session?.isSome = true →
    outcome ((Operation.ask .epoch).run (s, w.file)) = .ok (.number n)
  setEpoch : ∀ n ∈ h.epochs, ∀ s ∈ w.stores, ∀ m, ∃ e,
    (Operation.ask (.setEpoch m)).run (s, w.file) = .error e (s, w.file) ∧
      (s.isWritable = true → 0 ≤ m → e = .epochAlreadySet)
  reserved : ∀ s ∈ w.stores, ∀ key value, ∀ k : ReservedKey,
    (state ((Operation.ask (.putMetadata key value)).run (s, w.file))).2.inside.metadata.rows.find?
      k.text = w.container.metadata.rows.find? k.text
  note : ∀ s ∈ w.stores, s.session?.isSome = true → ∀ key, ReservedKey.isReserved key = false →
    outcome ((Operation.ask (.metadata key)).run (s, w.file)) =
      .ok (.text ((h.note? key).or (c.metadata.rows.find? key)))

end World

namespace Operation

variable {s : Store} {session : Session} {f : File} {held : Bool} {c : Container}

lemma outcome_metadata (hp : s.phase = .opened session)
    (hc : c.metadata = .stored c.metadata.rows) (key : String) (held : Bool) :
    outcome ((ask (.metadata key)).run (s, .container held c)) =
      .ok (.text (c.metadata.rows.find? key)) := by
  rw [ask_opened hp (by rintro ⟨⟩), outcome_mapState, Request.serve,
    map_ok (Session.metadata?_run hc key session), outcome_ok]

lemma outcome_epoch (hp : s.phase = .opened session) {n : Int64}
    (hn : c.metadata.rows.find? ReservedKey.epoch.text = some (Decimal.ofInt n.toInt))
    (held : Bool) : outcome ((ask .epoch).run (s, .container held c)) = .ok (.number n) := by
  rw [ask_opened hp (by rintro ⟨⟩), outcome_mapState, Request.serve,
    map_ok (Session.epoch_run hn session), outcome_ok]

lemma setEpoch_again (hs : s.Backed f) {text : String}
    (hn : f.inside.metadata.rows.find? ReservedKey.epoch.text = some text) (m : Int64) :
    ∃ e, (ask (.setEpoch m)).run (s, f) = .error e (s, f) ∧
      (s.isWritable = true → 0 ≤ m → e = .epochAlreadySet) := by
  cases hsession : s.session? with
  | none =>
    refine ⟨.storeClosed, ask_closed hsession _ f, fun hw => ?_⟩
    simp [Store.isWritable, hsession] at hw
  | some session =>
    have hp := Store.phase_of_session? hsession
    obtain ⟨held, c, -, rfl, -⟩ := hs (by rw [hsession]; rfl)
    rw [File.inside_container] at hn
    cases hw : session.writable with
    | false =>
      refine ⟨.notWritable, ask_notWritable hp hw rfl _, fun hw' => ?_⟩
      simp [Store.isWritable, hsession, hw] at hw'
    | true =>
      obtain ⟨e, he, h0⟩ := Session.setEpoch_again hn m session
      refine ⟨e, ?_, fun _ => h0⟩
      rw [ask_opened hp fun _ => hw, Request.serve, map_error he, mapState, ← hp]

lemma reserved_putMetadata (hs : s.Backed f) (key value : String) (k : ReservedKey) :
    (state ((ask (.putMetadata key value)).run (s, f))).2.inside.metadata.rows.find? k.text =
      f.inside.metadata.rows.find? k.text := by
  cases amends_run hs (ask (.putMetadata key value)) with
  | nothing _ _ same => rw [Table.rows_congr same]
  | note _ _ free stored =>
    rw [stored, Table.rows, Rows.find?_insert_of_ne _ _ (ReservedKey.text_ne free k)]
  | epoch _ epoch => cases epoch
  | upgrade opened => cases opened

end Operation

namespace World

variable {w : World} {h : History}

lemma Run.remembers {f : File} (hw : Run ⟨f, []⟩ w h) : w.Remembers f.inside h := by
  obtain ⟨hback, hf⟩ := hw.follows (by simp)
  constructor
  · intro n hn s hs ho
    obtain ⟨session, hsession⟩ := Option.isSome_iff_exists.1 ho
    obtain ⟨held, c, text, hfile, hid⟩ := hback s hs ho
    have hrow := hf.epoch n hn
    rw [container, hfile] at hrow
    rw [hfile]
    exact Operation.outcome_epoch (Store.phase_of_session? hsession) hrow held
  · intro n hn s hs m
    exact Operation.setEpoch_again (hback s hs) (hf.epoch n hn) m
  · intro s hs key value k
    exact Operation.reserved_putMetadata (hback s hs) key value k
  · intro s hs ho key hk
    obtain ⟨session, hsession⟩ := Option.isSome_iff_exists.1 ho
    obtain ⟨held, c, text, hfile, hid⟩ := hback s hs ho
    have hrow := hf.note key hk
    rw [container, hfile] at hrow
    rw [hfile, Operation.outcome_metadata (Store.phase_of_session? hsession) (Table.eq_stored hid)]
    exact congrArg (fun x => Except.ok (Answer.text x)) hrow

theorem metadata_of_run {f : File} (hw : Run ⟨f, []⟩ w h) :
    w.Remembers f.inside h ∧ ∀ w' h', Run w w' h' → w.Persists w' :=
  ⟨hw.remembers, fun _ _ hw' => hw'.persists (hw.follows (by simp)).1⟩

def ask (p : World × History) (c : Nat × Operation) : World × History :=
  match p.1.stores[c.1]? with
  | some s => (p.1.after c.1 s c.2, ⟨c.2, outcome (c.2.run (s, p.1.file))⟩ :: p.2)
  | none => p

lemma Run.asks {start : World} {p : World × History} (hp : Run start p.1 p.2)
    (cs : List (Nat × Operation)) : Run start (cs.foldl ask p).1 (cs.foldl ask p).2 := by
  induction cs generalizing p with
  | nil => exact hp
  | cons c cs ih =>
    apply ih
    rw [ask]
    split
    next hs => exact hp.call c.1 c.2 hs
    · exact hp

def sampleSessions : World × History :=
  [(0, .openFile true .zero), (0, .ask (.setEpoch 5)), (0, .ask (.putMetadata "owner" "me")),
    (0, .close), (1, .openFile true .zero)].foldl ask
    (create (create ⟨.missing, []⟩ "chunks" {}) "chunks" {}, [])

theorem metadata_of_run_sample :
    Run ⟨.missing, []⟩ sampleSessions.1 sampleSessions.2 ∧
      ∃ s ∈ sampleSessions.1.stores, s.isWritable = true ∧
        outcome ((Operation.ask .epoch).run (s, sampleSessions.1.file)) = .ok (.number 5) ∧
        outcome ((Operation.ask (.setEpoch 6)).run (s, sampleSessions.1.file)) =
          .error .epochAlreadySet ∧
        outcome ((Operation.ask (.metadata "owner")).run (s, sampleSessions.1.file)) =
          .ok (.text (some "me")) := by
  have hrun : Run ⟨.missing, []⟩ sampleSessions.1 sampleSessions.2 :=
    Run.asks (p := (create (create ⟨.missing, []⟩ "chunks" {}) "chunks" {}, []))
      (.create _ _ (.create _ _ .start)) _
  have hwritable : sampleSessions.1.stores[1]?.any Store.isWritable = true := by decide +kernel
  obtain ⟨s, hs, hw⟩ := (Option.any_eq_true _ _).1 hwritable
  have hmem := List.mem_of_getElem? hs
  have hopen : s.session?.isSome = true := by
    cases h : s.session? with
    | some session => rfl
    | none => simp [Store.isWritable, h] at hw
  have hepoch : 5 ∈ sampleSessions.2.epochs := by decide +kernel
  have hnote : (sampleSessions.2.note? "owner") = some "me" := by decide +kernel
  obtain ⟨hremembers, -⟩ := metadata_of_run hrun
  obtain ⟨e, he, hagain⟩ := hremembers.setEpoch 5 hepoch s hmem 6
  refine ⟨hrun, s, hmem, hw, hremembers.epoch 5 hepoch s hmem hopen, ?_, ?_⟩
  · rw [he, hagain hw (by decide), outcome_error]
  · rw [hremembers.note s hmem hopen "owner" (by decide), hnote]
    rfl

end World
end ChunkStore
