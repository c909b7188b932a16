import ChunkStore.Json
import ChunkStore.Proofs.Decimal

/-!
A value is known from its text, also where more text follows: no written value is the beginning of
another one, unless it is a number that goes on.
-/

namespace ChunkStore.Json

variable {c c' : Char} {r r' : List Char}

def escaped : List Char := '"' :: '\\' :: (List.range 32).map Char.ofNat

lemma escape_cases (c : Char) : ((escape c).toList = [c] ∧ c ≠ '\\' ∧ c ≠ '"') ∨
    c ∈ escaped ∧ ∃ cs, (escape c).toList = '\\' :: cs := by
  unfold escape
  split
  iterate 7 exact .inr ⟨by decide, _, rfl⟩
  next hquote hslash _ _ _ _ _ =>
    split
    next hcontrol =>
      have hc : c ∈ (List.range 32).map Char.ofNat :=
        List.mem_map.2 ⟨c.toNat, List.mem_range.2 hcontrol, Char.ofNat_toNat c⟩
      exact .inr ⟨by simp [escaped, hc], _, String.toList_append⟩
    next => exact .inl ⟨String.toList_singleton c, hslash, hquote⟩

lemma escape_prefixFree (hc : c ∈ escaped) (hc' : c' ∈ escaped)
    (h : (escape c).toList <+: (escape c').toList) : c = c' := by
  have hall : escaped.all fun c => escaped.all fun c' =>
      (escape c).toList <+: (escape c').toList → c = c' := by decide +kernel
  exact of_decide_eq_true (List.all_eq_true.1 (List.all_eq_true.1 hall c hc) c' hc') h

lemma escape_inj (h : (escape c).toList ++ r = (escape c').toList ++ r') : c = c' ∧ r = r' := by
  obtain ⟨hc, hslash, -⟩ | ⟨hc, cs, hcs⟩ := escape_cases c
  · obtain ⟨hc', -, -⟩ | ⟨-, cs', hcs'⟩ := escape_cases c'
    · rw [hc, hc'] at h
      exact List.cons_eq_cons.1 h
    · rw [hc, hcs'] at h
      exact absurd (List.cons_eq_cons.1 h).1 hslash
  · obtain ⟨hc', hslash', -⟩ | ⟨hc', -⟩ := escape_cases c'
    · rw [hcs, hc'] at h
      exact absurd (List.cons_eq_cons.1 h).1.symm hslash'
    · -- one is the beginning of the other
      have heq : c = c' := by
        obtain hp | hp := List.prefix_or_prefix_of_prefix (List.prefix_append _ r)
          (h ▸ List.prefix_append _ r')
        · exact escape_prefixFree hc hc' hp
        · exact (escape_prefixFree hc' hc hp).symm
      obtain rfl := heq
      exact ⟨rfl, List.append_cancel_left h⟩

lemma escape_ne_quote (c : Char) (r r' : List Char) : (escape c).toList ++ r ≠ '"' :: r' := by
  intro h
  obtain ⟨hc, -, hquote⟩ | ⟨-, cs, hcs⟩ := escape_cases c
  · rw [hc] at h
    exact hquote (List.cons_eq_cons.1 h).1
  · rw [hcs] at h
    exact absurd (List.cons_eq_cons.1 h).1 (by decide)

lemma escaped_inj {cs cs' : List Char}
    (h : (cs.flatMap fun c => (escape c).toList) ++ '"' :: r =
      (cs'.flatMap fun c => (escape c).toList) ++ '"' :: r') : cs = cs' ∧ r = r' := by
  induction cs generalizing cs' with
  | nil =>
    cases cs' with
    | nil => exact ⟨rfl, (List.cons_eq_cons.1 h).2⟩
    | cons c' cs' =>
      rw [List.flatMap_cons, List.append_assoc] at h
      exact absurd h.symm (escape_ne_quote c' _ _)
  | cons c cs ih =>
    cases cs' with
    | nil =>
      rw [List.flatMap_cons, List.append_assoc] at h
      exact absurd h (escape_ne_quote c _ _)
    | cons c' cs' =>
      rw [List.flatMap_cons, List.append_assoc, List.flatMap_cons, List.append_assoc] at h
      obtain ⟨rfl, hrest⟩ := escape_inj h
      obtain ⟨rfl, hr⟩ := ih hrest
      exact ⟨rfl, hr⟩

lemma toList_quote (s : String) :
    (quote s).toList = '"' :: (s.toList.flatMap fun c => (escape c).toList) ++ ['"'] := by
  rw [quote, String.toList_append, String.toList_append, String.toList_join, List.flatMap_map]
  rfl

lemma quote_inj {s s' : String} (h : (quote s).toList ++ r = (quote s').toList ++ r') :
    s = s' ∧ r = r' := by
  rw [toList_quote, toList_quote] at h
  simp only [List.cons_append, List.append_assoc, List.nil_append, List.cons.injEq, true_and] at h
  obtain ⟨hs, hr⟩ := escaped_inj h
  exact ⟨String.toList_inj.1 hs, hr⟩

def Ends (r : List Char) : Prop := ∀ c ∈ r.head?, Decimal.isPart c = false

lemma takeWhile_ofInt (hr : Ends r) (i : Int) :
    ((Decimal.ofInt i).toList ++ r).takeWhile Decimal.isPart = (Decimal.ofInt i).toList := by
  rw [List.takeWhile_append_of_pos fun c hc => Decimal.isPart_of_mem_ofInt hc]
  cases r with
  | nil => simp
  | cons c r => rw [List.takeWhile_cons, hr c rfl, if_neg (by simp), List.append_nil]

lemma ofInt_inj {i i' : Int} (hr : Ends r) (hr' : Ends r')
    (h : (Decimal.ofInt i).toList ++ r = (Decimal.ofInt i').toList ++ r') : i = i' ∧ r = r' := by
  have htext := congrArg (List.takeWhile Decimal.isPart) h
  rw [takeWhile_ofInt hr, takeWhile_ofInt hr'] at htext
  obtain rfl := Decimal.ofInt_injective (String.toList_inj.1 htext)
  exact ⟨rfl, List.append_cancel_left h⟩

section separated

variable {α : Type} {f : α → List Char} {stop : Char}

/-- What `f` writes for `a` gives away `a`, and where it ends. -/
def Known (f : α → List Char) (a : α) : Prop :=
  ∀ b r r', Ends r → Ends r' → f a ++ r = f b ++ r' → a = b ∧ r = r'

lemma intercalate_cons (p : List Char) (ps : List (List Char)) :
    [','].intercalate (p :: ps) = p ++ ps.flatMap fun q => ',' :: q := by
  induction ps generalizing p with
  | nil => simp
  | cons q ps ih =>
    rw [List.intercalate_cons_cons, ih, List.flatMap_cons, List.append_assoc]
    rfl

lemma ends_separated (hstop : Decimal.isPart stop = false) (ps : List (List Char)) :
    Ends ((ps.flatMap fun q => ',' :: q) ++ stop :: r) := by
  cases ps with
  | nil => simpa [Ends] using hstop
  | cons p ps => simp [Ends, Decimal.isPart]

variable (hstop : Decimal.isPart stop = false) (hcomma : stop ≠ ',')

include hstop hcomma

lemma separated_inj {as bs : List α} (has : ∀ a ∈ as, Known f a)
    (h : ((as.map f).flatMap fun q => ',' :: q) ++ stop :: r =
      ((bs.map f).flatMap fun q => ',' :: q) ++ stop :: r') : as = bs ∧ r = r' := by
  induction as generalizing bs with
  | nil =>
    cases bs with
    | nil => exact ⟨rfl, (List.cons_eq_cons.1 h).2⟩
    | cons b bs => exact absurd (List.cons_eq_cons.1 h).1 hcomma
  | cons a as ih =>
    cases bs with
    | nil => exact absurd (List.cons_eq_cons.1 h).1.symm hcomma
    | cons b bs =>
      simp only [List.map_cons, List.flatMap_cons, List.cons_append, List.append_assoc,
        List.cons.injEq, true_and] at h
      obtain ⟨rfl, hrest⟩ :=
        has a (by simp) b _ _ (ends_separated hstop _) (ends_separated hstop _) h
      obtain ⟨rfl, hr⟩ := ih (fun c hc => has c (by simp [hc])) hrest
      exact ⟨rfl, hr⟩

lemma intercalated_inj (hopen : ∀ a r r', f a ++ r ≠ stop :: r') {as bs : List α}
    (has : ∀ a ∈ as, Known f a)
    (h : [','].intercalate (as.map f) ++ stop :: r = [','].intercalate (bs.map f) ++ stop :: r') :
    as = bs ∧ r = r' := by
  cases as with
  | nil =>
    cases bs with
    | nil => exact ⟨rfl, (List.cons_eq_cons.1 h).2⟩
    | cons b bs =>
      rw [List.map_cons, intercalate_cons, List.append_assoc] at h
      exact absurd h.symm (hopen b _ _)
  | cons a as =>
    cases bs with
    | nil =>
      rw [List.map_cons, intercalate_cons, List.append_assoc] at h
      exact absurd h (hopen a _ _)
    | cons b bs =>
      refine separated_inj hstop hcomma has ?_
      simpa only [List.map_cons, intercalate_cons, List.flatMap_cons, List.cons_append,
        List.append_assoc, List.cons.injEq, true_and] using h

end separated

def chars (j : Json) : List Char := j.compact.toList

def memberChars (m : String × Json) : List Char := (quote m.1).toList ++ ':' :: m.2.chars

lemma chars_list (items : List Json) :
    (list items).chars = '[' :: [','].intercalate (items.map chars) ++ [']'] := by
  have hitems : (compactItems items).map String.toList = items.map chars := by
    induction items with
    | nil => rfl
    | cons item items ih => rw [compactItems, List.map_cons, ih, List.map_cons, chars]
  rw [chars, compact, String.toList_append, String.toList_append, String.toList_intercalate, hitems]
  rfl

lemma chars_object (members : List (String × Json)) :
    (object members).chars = '\x7b' :: [','].intercalate (members.map memberChars) ++ ['\x7d'] := by
  have hmembers : (compactMembers members).map String.toList = members.map memberChars := by
    induction members with
    | nil => rfl
    | cons m members ih =>
      rw [compactMembers, List.map_cons, ih, List.map_cons, memberChars, String.toList_append,
        String.toList_append, List.append_assoc]
      rfl
  rw [chars, compact, String.toList_append, String.toList_append, String.toList_intercalate, hmembers]
  rfl

def sortOf (c : Char) : Nat :=
  if c = 'n' then null.ctorIdx
  else if c = 't' ∨ c = 'f' then (boolean true).ctorIdx
  else if c = '"' then (text "").ctorIdx
  else if c = '[' then (list []).ctorIdx
  else if c = '\x7b' then (object []).ctorIdx
  else (integer 0).ctorIdx

lemma sortOf_of_isPart (h : Decimal.isPart c = true) (i : Int) : sortOf c = (integer i).ctorIdx := by
  have hne {d : Char} (hd : Decimal.isPart d = false) : c ≠ d := by
    rintro rfl
    rw [hd] at h
    cases h
  rw [sortOf, if_neg (hne rfl), if_neg (not_or.2 ⟨hne rfl, hne rfl⟩), if_neg (hne rfl),
    if_neg (hne rfl), if_neg (hne rfl)]
  rfl

lemma exists_chars (j : Json) : ∃ c cs, j.chars = c :: cs ∧ sortOf c = j.ctorIdx ∧ c ≠ ']' := by
  cases j with
  | null => exact ⟨_, _, rfl, rfl, by decide⟩
  | boolean value => cases value <;> exact ⟨_, _, rfl, rfl, by decide⟩
  | integer value =>
    rw [chars, compact]
    cases hcs : (Decimal.ofInt value).toList with
    | nil => exact absurd hcs (Decimal.ofInt_ne_nil value)
    | cons c cs =>
      have hc : Decimal.isPart c = true := Decimal.isPart_of_mem_ofInt (hcs ▸ List.mem_cons_self)
      refine ⟨c, cs, rfl, sortOf_of_isPart hc value, ?_⟩
      rintro rfl
      cases hc
  | text value => exact ⟨_, _, toList_quote value, rfl, by decide⟩
  | list items => exact ⟨_, _, chars_list items, rfl, by decide⟩
  | object members => exact ⟨_, _, chars_object members, rfl, by decide⟩

lemma ctorIdx_eq {j j' : Json} (h : j.chars ++ r = j'.chars ++ r') : j.ctorIdx = j'.ctorIdx := by
  obtain ⟨c, cs, hcs, hsort, -⟩ := exists_chars j
  obtain ⟨c', cs', hcs', hsort', -⟩ := exists_chars j'
  rw [hcs, hcs'] at h
  rw [← hsort, ← hsort', (List.cons_eq_cons.1 h).1]

lemma chars_ne_bracket (j : Json) (r r' : List Char) : j.chars ++ r ≠ ']' :: r' := by
  obtain ⟨c, cs, hcs, -, hc⟩ := exists_chars j
  rw [hcs]
  exact fun h => hc (List.cons_eq_cons.1 h).1

lemma known_member {m : String × Json} (h : Known chars m.2) : Known memberChars m := by
  intro m' r r' hr hr' heq
  simp only [memberChars, List.append_assoc] at heq
  obtain ⟨hkey, hrest⟩ := quote_inj heq
  obtain ⟨hvalue, hr⟩ := h m'.2 r r' hr hr' (List.cons_eq_cons.1 hrest).2
  exact ⟨Prod.ext hkey hvalue, hr⟩

lemma known_list {items : List Json} (h : ∀ item ∈ items, Known chars item) :
    Known chars (list items) := by
  intro j r r' hr hr' heq
  cases j with
  | list items' =>
    simp only [chars_list, List.cons_append, List.append_assoc, List.nil_append, List.cons.injEq,
      true_and] at heq
    obtain ⟨rfl, hr⟩ := intercalated_inj rfl (by decide) chars_ne_bracket h heq
    exact ⟨rfl, hr⟩
  | _ => cases ctorIdx_eq heq

lemma known_object {members : List (String × Json)} (h : ∀ m ∈ members, Known chars m.2) :
    Known chars (object members) := by
  intro j r r' hr hr' heq
  cases j with
  | object members' =>
    simp only [chars_object, List.cons_append, List.append_assoc, List.nil_append, List.cons.injEq,
      true_and] at heq
    have hopen (m : String × Json) (r r' : List Char) : memberChars m ++ r ≠ '\x7d' :: r' := by
      rw [memberChars, toList_quote]
      exact fun h => absurd (List.cons_eq_cons.1 h).1 (by decide)
    obtain ⟨rfl, hr⟩ := intercalated_inj rfl (by decide) hopen (fun m hm => known_member (h m hm)) heq
    exact ⟨rfl, hr⟩
  | _ => cases ctorIdx_eq heq

lemma known_chars (j : Json) : Known chars j := by
  cases j with
  | list items => exact known_list fun item hitem => known_chars item
  | object members => exact known_object fun m hm => known_chars m.2
  | null =>
    intro j r r' hr hr' heq
    cases j with
    | null => exact ⟨rfl, List.append_cancel_left heq⟩
    | _ => cases ctorIdx_eq heq
  | boolean value =>
    intro j r r' hr hr' heq
    cases j with
    | boolean value' =>
      have hvalue : value = value' := by
        cases value <;> cases value' <;>
          first
          | rfl
          | exact absurd (List.cons_eq_cons.1 heq).1 (by decide)
      obtain rfl := hvalue
      exact ⟨rfl, List.append_cancel_left heq⟩
    | _ => cases ctorIdx_eq heq
  | integer value =>
    intro j r r' hr hr' heq
    cases j with
    | integer value' =>
      obtain ⟨rfl, hr⟩ := ofInt_inj hr hr' heq
      exact ⟨rfl, hr⟩
    | _ => cases ctorIdx_eq heq
  | text value =>
    intro j r r' hr hr' heq
    cases j with
    | text value' =>
      obtain ⟨rfl, hr⟩ := quote_inj heq
      exact ⟨rfl, hr⟩
    | _ => cases ctorIdx_eq heq
termination_by sizeOf j
decreasing_by
  · have := List.sizeOf_lt_of_mem hitem
    simp only [list.sizeOf_spec]
    omega
  · have := List.sizeOf_lt_of_mem hm
    obtain ⟨key, value⟩ := m
    simp only [object.sizeOf_spec, Prod.mk.sizeOf_spec] at *
    omega

theorem compact_injective {j j' : Json} (h : j.compact = j'.compact) : j = j' := by
  have hends : Ends [] := fun c hc => by cases hc
  exact (known_chars j j' [] [] hends hends (by rw [chars, chars, h])).1

end ChunkStore.Json
