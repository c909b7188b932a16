import ChunkStore.Proofs.Store.Atomicity
import ChunkStore.Proofs.Transaction.Upgrade
import ChunkStore.Store.History

/-! In every run, an identity stays, an epoch is set once, and other metadata are what was put last. -/

namespace ChunkStore

open Attempt Transaction

namespace Event

variable {e : Event}

lemma noted?_error (op : Operation) (e : Error) : noted? ⟨op, .error e⟩ = none := by
  cases op with
  | openFile writable entropy => rfl
  | close => rfl
  | ask r => cases r <;> rfl

lemma epoch?_error (op : Operation) (e : Error) : epoch? ⟨op, .error e⟩ = none := by
  cases op with
  | openFile writable entropy => rfl
  | close => rfl
  | ask r => cases r <;> rfl

end Event

namespace History

variable {h : History} {e : Event}

lemma note?_append (h h' : History) (key : String) :
    note? (h ++ h') key = (h.note? key).or (h'.note? key) := by
  rw [note?, List.filterMap_append, List.find?_append, Option.map_or, note?, note?]

lemma note?_quiet (hn : e.noted? = none) (key : String) : note? [e] key = none := by
  simp [note?, hn]

lemma note?_noted {k v : String} (hn : e.noted? = some (k, v)) (key : String) :
    note? [e] key = if key = k then some v else none := by
  by_cases hk : key = k
  · simp [note?, hn, hk]
  · simp [note?, hn, hk, Ne.symm hk]

lemma epochs_quiet (he : e.epoch? = none) : epochs (e :: h) = h.epochs := by
  simp [epochs, he]

lemma epochs_set {n : Int64} (he : e.epoch? = some n) : epochs (e :: h) = n :: h.epochs := by
  simp [epochs, he]

end History

inductive Container.Amends (c : Container) (e : Event) (d : Container) : Prop where
  | nothing (note : e.noted? = none) (epoch : e.epoch? = none)
      (same : d.metadata.read = c.metadata.read)
  | note {key value : String} (note : e.noted? = some (key, value)) (epoch : e.epoch? = none)
      (free : ReservedKey.isReserved key = false)
      (stored : d.metadata = .stored (c.metadata.rows.insert key value))
  | epoch {n : Int64} (note : e.noted? = none) (epoch : e.epoch? = some n)
      (fresh : c.metadata.rows.find? ReservedKey.epoch.text = none)
      (stored : d.metadata =
        .stored (c.metadata.rows.insert ReservedKey.epoch.text (Decimal.ofInt n.toInt)))
  | upgrade {entropy : Uuid} (opened : e.operation = .openFile true entropy)
      (upgraded : c.Upgraded entropy d)

namespace Session

variable {μ α : Type}

lemma of_transact_ok {writing : Bool} {x : Attempt Transaction α} {m n : μ} {c d : Container} {a : α}
    (h : transact writing (inTransaction x) (m, c) = .ok a (n, d)) :
    ∃ t, x (.begin writing c) = .ok a t ∧ d = t.commit c := by
  cases hx : x (.begin writing c) with
  | ok b t =>
    rw [transact_ok (inTransaction_ok hx)] at h
    cases h
    exact ⟨t, rfl, rfl⟩
  | error e t =>
    rw [transact_error (inTransaction_error hx)] at h
    cases h

lemma metadata_transact (writing : Bool) {x : Attempt (μ × Transaction) α}
    (hx : Respects (InvImage SameMetadata Prod.snd) x) :
    Respects (InvImage Eq fun s => s.2.metadata.read) (transact writing x) := fun (m, c) => by
  cases h : x (m, .begin writing c) with
  | ok a s =>
    obtain ⟨n, t⟩ := s
    have ht : c.metadata.read = t.view.metadata.read := hx.of_ok h
    rw [transact_ok h]
    change c.metadata.read = (t.commit c).metadata.read
    rw [commit]
    split
    · exact ht
    · rfl
  | error e s =>
    rw [transact_error h]
    rfl

lemma metadata_put (chunk : Chunk) :
    Respects (InvImage Eq fun s => s.2.metadata.read) (put chunk) := fun s => by
  have hx := metadata_transact true (respects_storeChunk
    (fun _ _ => respects_inCache (respects_intern metadata_insertDescriptor _ _))
    (fun _ _ => respects_inTransaction (metadata_insertChunk _ _)) chunk)
  rw [put]
  split
  next h =>
    have hc := hx.of_ok h
    exact hc
  next h =>
    have hc := hx.of_error h
    exact hc

variable {s s' : Session} {c d : Container} {n : Int64} {key value : String}

lemma setEpoch_ok (h : setEpoch n (s, c) = .ok () (s', d)) :
    c.metadata.rows.find? ReservedKey.epoch.text = none ∧
      d.metadata =
        .stored (c.metadata.rows.insert ReservedKey.epoch.text (Decimal.ofInt n.toInt)) := by
  obtain ⟨-, h⟩ := of_checked_ok h
  obtain ⟨t, ht, rfl⟩ := of_transact_ok h
  rw [commit_eq_view (opening_mode.insertEpoch mode_insertMeta n) ht]
  exact insertEpoch_ok ht

lemma putMetadata_ok (h : putMetadata key value (s, c) = .ok () (s', d)) :
    ReservedKey.isReserved key = false ∧
      d.metadata = .stored (c.metadata.rows.insert key value) := by
  obtain ⟨hk, h⟩ := of_checked_ok h
  obtain ⟨t, ht, rfl⟩ := of_transact_ok h
  rw [commit_eq_view (mode_insertMeta key value) ht]
  exact ⟨by simpa using hk, insertMeta_ok ht⟩

theorem amends_serve (r : Request) (s : Session) (c : Container) :
    c.Amends ⟨.ask r, outcome (r.serve (s, c))⟩ (state (r.serve (s, c))).2 := by
  cases h : r.serve (s, c) with
  | error e u =>
    obtain ⟨s', d⟩ := u
    obtain rfl : d = c := by
      simpa [h] using r.atomic_serve (s, c) e
    exact .nothing (Event.noted?_error _ e) (Event.epoch?_error _ e) rfl
  | ok a u =>
    obtain ⟨s', d⟩ := u
    have hreads (hr : r.isWriting = false) : d.metadata.read = c.metadata.read := by
      have hc : c = d := (Request.reads_serve hr).of_ok h
      rw [hc]
    cases r with
    | find t => exact .nothing rfl rfl (hreads rfl)
    | findBetween t u => exact .nothing rfl rfl (hreads rfl)
    | maxTimestamp => exact .nothing rfl rfl (hreads rfl)
    | epoch => exact .nothing rfl rfl (hreads rfl)
    | metadata k => exact .nothing rfl rfl (hreads rfl)
    | put chunk =>
      have hc : c.metadata.read = d.metadata.read := ((metadata_put chunk).map _).of_ok h
      exact .nothing rfl rfl hc.symm
    | setEpoch n =>
      obtain ⟨_, hset, -⟩ := of_map_ok h
      obtain ⟨hfresh, hstored⟩ := setEpoch_ok hset
      exact .epoch rfl rfl hfresh hstored
    | putMetadata key value =>
      obtain ⟨_, hput, -⟩ := of_map_ok h
      obtain ⟨hfree, hstored⟩ := putMetadata_ok hput
      exact .note rfl rfl hfree hstored

lemma metadata?_run (h : c.metadata = .stored c.metadata.rows) (key : String) (s : Session) :
    metadata? key (s, c) = .ok (c.metadata.rows.find? key) (s, c) :=
  transact_ok (inTransaction_ok (selectMeta_stored (t := .begin false c) h key))

lemma epoch_run (h : c.metadata.rows.find? ReservedKey.epoch.text = some (Decimal.ofInt n.toInt))
    (s : Session) : epoch (s, c) = .ok n (s, c) := by
  rw [epoch, bind_ok (metadata?_run (Table.eq_stored h) _ s), h]
  simp only [Decimal.readInt64_ofInt, pure_run]

lemma setEpoch_again {text : String}
    (h : c.metadata.rows.find? ReservedKey.epoch.text = some text) (n : Int64) (s : Session) :
    ∃ e, setEpoch n (s, c) = .error e (s, c) ∧ (0 ≤ n → e = .epochAlreadySet) := by
  rw [setEpoch]
  by_cases hn : n < 0
  · refine ⟨.invalidArgument (.negativeEpoch n), ?_, fun h0 => absurd hn (Int64.not_lt.2 h0)⟩
    rw [if_pos hn, bind_error (throw_run _ _)]
  · rw [if_neg hn]
    have ht : insertEpoch n (.begin true c) = .error .epochAlreadySet (.begin true c) :=
      insertEpoch_again h
    exact ⟨_, transact_error (inTransaction_error ht), fun _ => rfl⟩

end Session

def File.Identified (f : File) : Prop :=
  ∃ held c text, f = .container held c ∧ c.metadata.rows.find? ReservedKey.id.text = some text

def Store.Backed (f : File) (s : Store) : Prop := s.session?.isSome = true → f.Identified

lemma ReservedKey.text_ne {key : String} (h : isReserved key = false) (k : ReservedKey) :
    k.text ≠ key := by
  intro hk
  simp [isReserved_iff.2 ⟨k, hk⟩] at h

namespace Container.Amends

variable {c d : Container} {e : Event}

lemma stays (h : c.Amends e d) {k : ReservedKey} (hk : k ≠ .version) {text : String}
    (hc : c.metadata.rows.find? k.text = some text) : d.metadata.rows.find? k.text = some text := by
  cases h with
  | nothing _ _ same => rwa [Table.rows_congr same]
  | note _ _ free stored =>
    rwa [stored, Table.rows, Rows.find?_insert_of_ne _ _ (ReservedKey.text_ne free k)]
  | epoch _ _ fresh stored =>
    cases k with
    | id => rwa [stored, Table.rows, Rows.find?_insert_of_ne _ _ (by decide)]
    | epoch => simp [fresh] at hc
    | version => exact absurd rfl hk
  | upgrade _ upgraded =>
    cases k with
    | id => rw [upgraded.id, hc, Option.getD_some]
    | epoch => rwa [upgraded.rows _ (by decide) (by decide)]
    | version => exact absurd rfl hk

lemma find?_free (h : c.Amends e d) {key : String} (hk : ReservedKey.isReserved key = false) :
    d.metadata.rows.find? key = (History.note? [e] key).or (c.metadata.rows.find? key) := by
  have hne := ReservedKey.text_ne hk
  cases h with
  | nothing note _ same =>
    rw [Table.rows_congr same, History.note?_quiet note]
    rfl
  | note note _ _ stored =>
    rw [stored, Table.rows, Rows.find?_insert, History.note?_noted note]
    split
    · rfl
    · rfl
  | epoch note _ _ stored =>
    rw [stored, Table.rows, Rows.find?_insert_of_ne _ _ (hne .epoch).symm, History.note?_quiet note]
    rfl
  | upgrade opened upgraded =>
    rw [upgraded.rows _ (hne .version).symm (hne .id).symm,
      History.note?_quiet (by simp [Event.noted?, opened])]
    rfl

lemma find?_epoch (h : c.Amends e d) {n : Int64} (he : e.epoch? = some n) :
    d.metadata.rows.find? ReservedKey.epoch.text = some (Decimal.ofInt n.toInt) := by
  cases h with
  | nothing _ epoch => simp [epoch] at he
  | note _ epoch => simp [epoch] at he
  | epoch _ epoch _ stored =>
    obtain rfl := Option.some.inj (epoch.symm.trans he)
    rw [stored, Table.rows, Rows.find?_insert_self]
  | upgrade opened => simp [Event.epoch?, opened] at he

lemma schemaVersion_le (h : c.Amends e d) : c.schemaVersion ≤ d.schemaVersion := by
  have hsame (hv : d.metadata.rows.find? ReservedKey.version.text =
      c.metadata.rows.find? ReservedKey.version.text) : c.schemaVersion ≤ d.schemaVersion := by
    rw [schemaVersion, schemaVersion, hv]
    exact Int32.le_refl _
  cases h with
  | nothing _ _ same => exact hsame (by rw [Table.rows_congr same])
  | note _ _ free stored =>
    apply hsame
    rw [stored, Table.rows, Rows.find?_insert_of_ne _ _ (ReservedKey.text_ne free _)]
  | epoch _ _ _ stored =>
    apply hsame
    rw [stored, Table.rows, Rows.find?_insert_of_ne _ _ (by decide)]
  | upgrade _ upgraded =>
    rw [upgraded.version, Int32.le_iff_toInt_le, Schema.toInt_reached]
    omega

lemma readable (h : c.Amends e d) (hc : c.metadata.read = .ok c.metadata.rows) :
    d.metadata.read = .ok d.metadata.rows := by
  cases h with
  | nothing _ _ same => rw [Table.rows_congr same, same, hc]
  | note _ _ _ stored => rw [stored, Table.read, Table.rows]
  | epoch _ _ _ stored => rw [stored, Table.read, Table.rows]
  | upgrade _ upgraded =>
    rw [Table.eq_stored upgraded.id]
    rfl

end Container.Amends

namespace Operation

variable {s : Store} {f : File}

lemma amends_openFile (writable : Bool) (entropy : Uuid) (s : Store) (f : File) :
    f.inside.Amends ⟨.openFile writable entropy, outcome ((openFile writable entropy).run (s, f))⟩
      (state ((openFile writable entropy).run (s, f))).2.inside := by
  have hsame {c : Container} (hc : f.inside = c) (o : Except Error Answer) :
      f.inside.Amends ⟨.openFile writable entropy, o⟩ c :=
    .nothing rfl rfl (by rw [hc])
  rw [run, state_map]
  by_cases hs : s.phase = .initial
  · obtain ⟨e, he⟩ | ⟨c, hc, ⟨e, t, -, he⟩ | ⟨version, id, t, hu, he⟩⟩ :=
      Store.openFile_cases hs writable entropy f
    · rw [he]
      exact hsame rfl _
    · rw [he]
      exact hsame (File.inside_of_contents? hc) _
    · rw [he]
      cases writable with
      | false =>
        obtain ⟨-, -, rfl⟩ := Upgrade.validate_ok hu
        exact hsame (File.inside_of_contents? hc) _
      | true =>
        rw [File.inside_of_contents? hc]
        exact .upgrade rfl (Upgrade.upgraded_of_setUp hu)
  · rw [Store.openFile_again hs]
    exact hsame rfl _

lemma amends_ask (hs : s.Backed f) (r : Request) :
    f.inside.Amends ⟨.ask r, outcome ((ask r).run (s, f))⟩ (state ((ask r).run (s, f))).2.inside := by
  have hrefused {e : Error} (he : (ask r).run (s, f) = .error e (s, f)) :
      f.inside.Amends ⟨.ask r, outcome ((ask r).run (s, f))⟩
        (state ((ask r).run (s, f))).2.inside := by
    rw [he]
    exact .nothing (Event.noted?_error _ e) (Event.epoch?_error _ e) rfl
  cases hn : s.session? with
  | none => exact hrefused (ask_closed hn r f)
  | some session =>
    have hp := Store.phase_of_session? hn
    obtain ⟨held, c, -, rfl, -⟩ := hs (by rw [hn]; rfl)
    by_cases hw : r.isWriting = true → session.writable = true
    · rw [ask_opened hp hw, outcome_mapState, state_mapState]
      exact Session.amends_serve r session c
    · obtain ⟨hr, hn⟩ : r.isWriting = true ∧ session.writable = false := by simpa using hw
      exact hrefused (ask_notWritable hp hn hr _)

theorem amends_run (hs : s.Backed f) (op : Operation) :
    f.inside.Amends ⟨op, outcome (op.run (s, f))⟩ (state (op.run (s, f))).2.inside := by
  cases op with
  | openFile writable entropy => exact amends_openFile writable entropy s f
  | close =>
    have hf : (s.close f).2.inside = f.inside := by
      rw [Store.close]
      split
      · cases f <;> rfl
      · rfl
      · rfl
    refine .nothing rfl rfl ?_
    rw [run, state_ok, hf]
  | ask r => exact amends_ask hs r

end Operation
end ChunkStore
