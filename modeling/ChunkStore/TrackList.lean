import ChunkStore.Codec

/-!
The tracks of a descriptor: each has an id of its own and an encoding, and they stand in ascending
order of their ids. Written as a count, the ids as differences, and the tags of the encodings; equal
lists have equal written forms.
-/

namespace ChunkStore

structure Track where
  id : Int32
  encoding : Encoding
  deriving DecidableEq, Repr

structure TrackList where
  tracks : List Track
  ascending : tracks.Pairwise fun a b => a.id < b.id
  length_lt : tracks.length < 4294967296
  deriving DecidableEq

namespace TrackList

def size (l : TrackList) : Nat := l.tracks.length

def find? (l : TrackList) (id : Int32) : Option Track := l.tracks.find? fun t => t.id = id

def indexOf? (l : TrackList) (id : Int32) : Option Nat := l.tracks.findIdx? fun t => t.id = id

def repeated? : List Track → Option Int32
  | a :: b :: rest => if a.id = b.id then some a.id else repeated? (b :: rest)
  | _ => none

theorem pairwise_of_repeated? : ∀ {ts : List Track}, ts.Pairwise (fun a b => a.id ≤ b.id) →
    repeated? ts = none → ts.Pairwise fun a b => a.id < b.id
  | [], _, _ => .nil
  | [_], _, _ => List.pairwise_singleton _ _
  | a :: b :: rest, hs, hr => by
    obtain ⟨ha, hs⟩ := List.pairwise_cons.1 hs
    have hab : a.id ≠ b.id := fun h => by simp [repeated?, h] at hr
    have ih := pairwise_of_repeated? hs (by simpa [repeated?, hab] using hr)
    have hb : a.id < b.id := by
      have := ha b (by simp)
      rw [Int32.lt_iff_toInt_lt]
      rw [Int32.le_iff_toInt_le] at this
      have : a.id.toInt ≠ b.id.toInt := fun h => hab (Int32.toInt_inj.1 h)
      omega
    refine List.pairwise_cons.2 ⟨fun c hc => ?_, ih⟩
    rcases List.mem_cons.1 hc with rfl | hc
    · exact hb
    · exact Int32.lt_trans hb ((List.pairwise_cons.1 ih).1 c hc)

def sortById (ts : List Track) : List Track := ts.mergeSort fun a b => a.id ≤ b.id

theorem pairwise_sortById (ts : List Track) :
    (sortById ts).Pairwise fun a b => a.id ≤ b.id := by
  have h : (ts.mergeSort fun a b => decide (a.id ≤ b.id)).Pairwise fun a b =>
      decide (a.id ≤ b.id) = true := List.pairwise_mergeSort
    (fun a b c hab hbc => by simp only [decide_eq_true_eq] at *; exact Int32.le_trans hab hbc)
    (fun a b => by simpa using Int32.le_total a.id b.id) ts
  simpa [sortById] using h

/-- The most tracks that can be put together: counts of tracks are written as positive 32-bit
integers. -/
def maxSize : Nat := 2147483647

def ofList (added : List Track) : Except Error TrackList :=
  match h : repeated? (sortById added) with
  | some id => .error (.duplicateTrack id)
  | none =>
    if hn : maxSize < (sortById added).length then
      .error (.invalidArgument (.tooManyTracks (sortById added).length))
    else
      .ok ⟨sortById added, pairwise_of_repeated? (pairwise_sortById added) h, by
        simp only [maxSize] at hn; omega⟩

def encode (l : TrackList) : Bytes :=
  Bytes.ofWord l.size ++ Codec.delta.compress (l.tracks.map Track.id) ++
    Codec.plain.compress (l.tracks.map fun t => t.encoding.tag)

def ofTags (label : UInt64) (previous : Option Int32) : List (Int32 × Int32) →
    Except Error (List Track)
  | [] => .ok []
  | (id, tag) :: rest =>
    match previous.filter (id ≤ ·) with
    | some p => .error (.corrupt (.tracksNotAscending label p id))
    | none =>
      match Encoding.ofTag? tag with
      | none => .error (.unknownEncoding tag)
      | some encoding =>
        match ofTags label (some id) rest with
        | .ok ts => .ok (⟨id, encoding⟩ :: ts)
        | .error e => .error e

theorem ofTags_ok {label : UInt64} : ∀ {rows : List (Int32 × Int32)} {previous : Option Int32}
    {ts : List Track}, ofTags label previous rows = .ok ts →
    ts.map (fun t => (t.id, t.encoding.tag)) = rows ∧ (∀ p ∈ previous, ∀ t ∈ ts, p < t.id) ∧
      ts.Pairwise fun a b => a.id < b.id
  | [], _, ts, h => by
    obtain rfl : [] = ts := by simpa [ofTags] using h
    simp
  | (id, tag) :: rest, previous, ts, h => by
    rw [ofTags] at h
    split at h
    · simp at h
    next hp =>
      split at h
      · simp at h
      next encoding he =>
        split at h
        next us hu =>
          obtain rfl : ⟨id, encoding⟩ :: us = ts := by simpa using h
          obtain ⟨hm, hlt, hs⟩ := ofTags_ok hu
          have hid : ∀ t ∈ us, id < t.id := hlt id rfl
          refine ⟨by simp [hm, Encoding.tag_of_ofTag? he], ?_, List.pairwise_cons.2 ⟨hid, hs⟩⟩
          intro p hpre t ht
          obtain rfl : previous = some p := hpre
          have hpi : p < id := by
            have : ¬ id ≤ p := by simpa [Option.filter] using hp
            exact Int32.not_le.1 this
          rcases List.mem_cons.1 ht with rfl | ht
          · exact hpi
          · exact Int32.lt_trans hpi (hid t ht)
        · simp at h

/-- Reads what `encode` writes and nothing else but longer codes for the same integers. Failures
name the descriptor by `label`. -/
def decode (label : UInt64) (bs : Bytes) : Except Error TrackList :=
  match hw : Bytes.word? bs with
  | none => .error (.corrupt (.descriptorTooShort label bs.length))
  | some (count, rest) =>
    match hi : Codec.delta.split rest count with
    | .error e => .error e
    | .ok (ids, rest) =>
      match Codec.plain.split rest count with
      | .error e => .error e
      | .ok (tags, rest) =>
        if rest ≠ [] then .error (.corrupt (.descriptorTrailing label rest.length))
        else
          match ht : ofTags label none (ids.zip tags) with
          | .error e => .error e
          | .ok ts => .ok ⟨ts, (ofTags_ok ht).2.2, by
              have hids := Codec.length_of_split hi
              have hts := congrArg List.length (ofTags_ok ht).1
              have hcount := (Bytes.eq_ofWord_of_word? hw).1
              simp only [List.length_map, List.length_zip] at hts
              omega⟩

end TrackList
end ChunkStore
