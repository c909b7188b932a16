import ChunkStore.Attempt
import Mathlib.Tactic.Lemma

namespace ChunkStore.Attempt

variable {σ τ α β : Type}

@[simp] lemma outcome_ok (a : α) (s : σ) : outcome (.ok a s) = .ok a := rfl

@[simp] lemma outcome_error (e : Error) (s : σ) :
    outcome (.error e s : EStateM.Result Error σ α) = .error e := rfl

@[simp] lemma state_ok (a : α) (s : σ) : state (.ok a s) = s := rfl

@[simp] lemma state_error (e : Error) (s : σ) :
    state (.error e s : EStateM.Result Error σ α) = s := rfl

lemma state_outcome_eq_ok_iff {x : EStateM.Result Error σ α} {s : σ} {a : α} :
    (state x, outcome x) = (s, .ok a) ↔ x = .ok a s := by
  cases x <;> simp [and_comm]

lemma state_outcome_eq_error_iff {x : EStateM.Result Error σ α} {s : σ} {e : Error} :
    (state x, outcome x) = (s, .error e) ↔ x = .error e s := by
  cases x <;> simp [and_comm]

lemma pure_run (a : α) (s : σ) : (pure a : Attempt σ α) s = .ok a s := rfl

lemma throw_run (e : Error) (s : σ) : (throw e : Attempt σ α) s = .error e s := rfl

lemma bind_ok {x : Attempt σ α} {s t : σ} {a : α} (h : x s = .ok a t) (f : α → Attempt σ β) :
    (x >>= f) s = f a t := by
  change EStateM.bind x f s = _
  simp only [EStateM.bind, h]

lemma bind_error {x : Attempt σ α} {s t : σ} {e : Error} (h : x s = .error e t)
    (f : α → Attempt σ β) : (x >>= f) s = .error e t := by
  change EStateM.bind x f s = _
  simp only [EStateM.bind, h]

lemma map_ok {x : Attempt σ α} {s t : σ} {a : α} (h : x s = .ok a t) (f : α → β) :
    (f <$> x) s = .ok (f a) t := by
  change EStateM.map f x s = _
  simp only [EStateM.map, h]

lemma map_error {x : Attempt σ α} {s t : σ} {e : Error} (h : x s = .error e t) (f : α → β) :
    (f <$> x) s = .error e t := by
  change EStateM.map f x s = _
  simp only [EStateM.map, h]

lemma of_bind_ok {x : Attempt σ α} {f : α → Attempt σ β} {s u : σ} {b : β}
    (h : (x >>= f) s = .ok b u) : ∃ a t, x s = .ok a t ∧ f a t = .ok b u := by
  cases hx : x s with
  | ok a t =>
    rw [bind_ok hx] at h
    exact ⟨a, t, rfl, h⟩
  | error e t =>
    rw [bind_error hx] at h
    cases h

lemma of_map_ok {f : α → β} {x : Attempt σ α} {s u : σ} {b : β} (h : (f <$> x) s = .ok b u) :
    ∃ a, x s = .ok a u ∧ f a = b := by
  cases hx : x s with
  | ok a t =>
    rw [map_ok hx] at h
    cases h
    exact ⟨a, rfl, rfl⟩
  | error e t =>
    rw [map_error hx] at h
    cases h

lemma of_map_error {f : α → β} {x : Attempt σ α} {s u : σ} {e : Error}
    (h : (f <$> x) s = .error e u) : x s = .error e u := by
  cases hx : x s with
  | ok a t =>
    rw [map_ok hx] at h
    cases h
  | error e' t =>
    rw [map_error hx] at h
    cases h
    rfl

lemma of_pure_ok {a b : α} {s t : σ} (h : (pure a : Attempt σ α) s = .ok b t) : a = b ∧ s = t := by
  simpa [pure_run] using h

lemma of_ofExcept_ok {r : Except Error α} {a : α} {s t : σ} (h : ofExcept r s = .ok a t) :
    r = .ok a ∧ s = t := by
  cases r with
  | ok b => simpa [ofExcept] using h
  | error e => cases h

lemma of_checked_ok {p : Prop} [Decidable p] {e : Error} {x : Attempt σ α} {s t : σ} {a : α}
    (h : (do
      if p then throw e
      x) s = .ok a t) : ¬ p ∧ x s = .ok a t := by
  split at h
  next hp =>
    rw [bind_error (throw_run e s)] at h
    cases h
  next hp => exact ⟨hp, h⟩

lemma ofExcept_ok (a : α) (s : σ) : ofExcept (.ok a) s = .ok a s := rfl

lemma ofExcept_error (e : Error) (s : σ) : (ofExcept (.error e) : Attempt σ α) s = .error e s := rfl

@[simp] lemma state_map (f : α → β) (x : Attempt σ α) (s : σ) :
    state ((f <$> x) s) = state (x s) := by
  cases h : x s with
  | ok a t => rw [map_ok h, state_ok, state_ok]
  | error e t => rw [map_error h, state_error, state_error]

@[simp] lemma outcome_map (f : α → β) (x : Attempt σ α) (s : σ) :
    outcome ((f <$> x) s) = (outcome (x s)).map f := by
  cases h : x s with
  | ok a t => rw [map_ok h]; rfl
  | error e t => rw [map_error h]; rfl

def mapState (f : σ → τ) : EStateM.Result Error σ α → EStateM.Result Error τ α
  | .ok a s => .ok a (f s)
  | .error e s => .error e (f s)

@[simp] lemma outcome_mapState (f : σ → τ) (x : EStateM.Result Error σ α) :
    outcome (mapState f x) = outcome x := by
  cases x <;> rfl

@[simp] lemma state_mapState (f : σ → τ) (x : EStateM.Result Error σ α) :
    state (mapState f x) = f (state x) := by
  cases x <;> rfl

lemma map_mapState {x : Attempt σ α} {y : Attempt τ α} {s : σ} {t : τ} {f : τ → σ}
    (h : x s = mapState f (y t)) (g : α → β) : (g <$> x) s = mapState f ((g <$> y) t) := by
  cases hy : y t with
  | ok a u =>
    rw [hy] at h
    rw [map_ok h, map_ok hy]
    rfl
  | error e u =>
    rw [hy] at h
    rw [map_error h, map_error hy]
    rfl

lemma mapState_mapState {υ : Type} (f : τ → υ) (g : σ → τ) (x : EStateM.Result Error σ α) :
    mapState f (mapState g x) = mapState (fun s => f (g s)) x := by
  cases x <;> rfl

lemma mapState_congr {f g : σ → τ} {x : EStateM.Result Error σ α} (h : f (state x) = g (state x)) :
    mapState f x = mapState g x := by
  cases x with
  | ok a s => exact congrArg (EStateM.Result.ok a) h
  | error e s => exact congrArg (EStateM.Result.error e) h

lemma within_run (get : σ → τ) (set : τ → σ → σ) (x : Attempt τ α) (s : σ) :
    within get set x s = mapState (fun t => set t s) (x (get s)) := by
  rw [within]
  cases x (get s) <;> rfl

/-- Every run, failing ones too, leads from a state to one that `R` relates it to. -/
def Respects (R : σ → σ → Prop) (x : Attempt σ α) : Prop := ∀ s, R s (state (x s))

section Respects

variable {R : σ → σ → Prop} [Std.Refl R]

lemma respects_pure (a : α) : Respects R (pure a : Attempt σ α) := fun s => Std.Refl.refl s

lemma respects_throw (e : Error) : Respects R (throw e : Attempt σ α) := fun s => Std.Refl.refl s

lemma respects_ofExcept (r : Except Error α) : Respects R (ofExcept r) := fun s => by
  cases r with
  | ok a => exact Std.Refl.refl s
  | error e => exact Std.Refl.refl s

omit [Std.Refl R] in
lemma Respects.of_ok {x : Attempt σ α} (hx : Respects R x) {s t : σ} {a : α} (h : x s = .ok a t) :
    R s t := by
  simpa only [h, state_ok] using hx s

omit [Std.Refl R] in
lemma Respects.of_error {x : Attempt σ α} (hx : Respects R x) {s t : σ} {e : Error}
    (h : x s = .error e t) : R s t := by
  simpa only [h, state_error] using hx s

omit [Std.Refl R] in
lemma Respects.bind [Trans R R R] {x : Attempt σ α} {f : α → Attempt σ β} (hx : Respects R x)
    (hf : ∀ a, Respects R (f a)) : Respects R (x >>= f) := fun s => by
  cases h : x s with
  | ok a t =>
    rw [bind_ok h]
    exact Trans.trans (hx.of_ok h) (hf a t)
  | error e t =>
    rw [bind_error h]
    exact hx.of_error h

lemma Respects.checked [Trans R R R] {x : Attempt σ α} (hx : Respects R x) (p : Prop)
    [Decidable p] (e : Error) :
    Respects R (do
      if p then throw e
      x) := by
  split
  · exact (respects_throw e).bind fun _ => hx
  · exact hx

omit [Std.Refl R] in
lemma Respects.map {x : Attempt σ α} (hx : Respects R x) (f : α → β) : Respects R (f <$> x) :=
  fun s => by
    rw [state_map]
    exact hx s

omit [Std.Refl R] in
lemma respects_within (get : τ → σ) {set : σ → τ → τ} {x : Attempt σ α} (hx : Respects R x)
    (hset : ∀ t s, get (set s t) = s) : Respects (InvImage R get) (within get set x) := fun t => by
  change R (get t) (get (state (within get set x t)))
  rw [within_run, state_mapState, hset]
  exact hx (get t)

end Respects

instance : Std.Refl (Eq (α := σ)) := ⟨fun _ => rfl⟩

instance {R : σ → σ → Prop} [Std.Refl R] (f : τ → σ) : Std.Refl (InvImage R f) :=
  ⟨fun t => Std.Refl.refl (f t)⟩

instance {R : σ → σ → Prop} [Trans R R R] (f : τ → σ) :
    Trans (InvImage R f) (InvImage R f) (InvImage R f) :=
  ⟨fun h k => Trans.trans (r := R) (s := R) h k⟩

def Agree (R : σ → τ → Prop) (x : EStateM.Result Error σ α) (y : EStateM.Result Error τ α) : Prop :=
  outcome x = outcome y ∧ R (state x) (state y)

section Agree

variable {R : σ → τ → Prop} {s : σ} {t : τ}

lemma agree_ok (a : α) (h : R s t) : Agree R (.ok a s) (.ok a t) := ⟨rfl, h⟩

lemma agree_error (e : Error) (h : R s t) :
    Agree R (.error e s : EStateM.Result Error σ α) (.error e t) := ⟨rfl, h⟩

lemma Agree.cases {x : EStateM.Result Error σ α} {y : EStateM.Result Error τ α} (h : Agree R x y) :
    (∃ a s t, x = .ok a s ∧ y = .ok a t ∧ R s t) ∨ ∃ e s t, x = .error e s ∧ y = .error e t ∧ R s t := by
  obtain ⟨ho, hR⟩ := h
  cases x with
  | ok a s =>
    cases y with
    | ok b t =>
      obtain rfl : a = b := Except.ok.inj ho
      exact .inl ⟨a, s, t, rfl, rfl, hR⟩
    | error e t => cases ho
  | error e s =>
    cases y with
    | ok b t => cases ho
    | error e' t =>
      obtain rfl : e = e' := Except.error.inj ho
      exact .inr ⟨e, s, t, rfl, rfl, hR⟩

lemma Agree.bind {x : Attempt σ α} {y : Attempt τ α} {f : α → Attempt σ β} {g : α → Attempt τ β}
    (h : Agree R (x s) (y t)) (hf : ∀ a s t, R s t → Agree R (f a s) (g a t)) :
    Agree R ((x >>= f) s) ((y >>= g) t) := by
  obtain ⟨a, s', t', hx, hy, hR⟩ | ⟨e, s', t', hx, hy, hR⟩ := h.cases
  · rw [bind_ok hx, bind_ok hy]
    exact hf a s' t' hR
  · rw [bind_error hx, bind_error hy]
    exact agree_error e hR

lemma Agree.checked {x : Attempt σ α} {y : Attempt τ α} (h : Agree R (x s) (y t)) (hR : R s t)
    (p : Prop) [Decidable p] (e : Error) : Agree R
      ((do
        if p then throw e
        x) s)
      ((do
        if p then throw e
        y) t) := by
  by_cases hp : p
  · rw [if_pos hp, if_pos hp, bind_error (throw_run e s), bind_error (throw_run e t)]
    exact agree_error e hR
  · rw [if_neg hp, if_neg hp]
    exact h

lemma Agree.map {x : Attempt σ α} {y : Attempt τ α} (h : Agree R (x s) (y t)) (f : α → β) :
    Agree R ((f <$> x) s) ((f <$> y) t) := by
  simpa [Agree, h.1] using h.2

lemma Agree.mapState {υ ω : Type} {S : υ → ω → Prop} {x : EStateM.Result Error σ α}
    {y : EStateM.Result Error τ α} {f : σ → υ} {g : τ → ω} (h : Agree R x y)
    (hf : ∀ s t, R s t → S (f s) (g t)) : Agree S (mapState f x) (mapState g y) := by
  simpa [Agree, h.1] using hf _ _ h.2

end Agree

def Congruent (R : σ → σ → Prop) (x : Attempt σ α) : Prop := ∀ s t, R s t → Agree R (x s) (x t)

section Congruent

variable {R : σ → σ → Prop}

lemma congruent_pure (a : α) : Congruent R (pure a : Attempt σ α) := fun _ _ h => agree_ok a h

lemma congruent_ofExcept (r : Except Error α) : Congruent R (ofExcept r : Attempt σ α) := fun _ _ h => by
  cases r with
  | ok a => exact agree_ok a h
  | error e => exact agree_error e h

lemma Congruent.bind {x : Attempt σ α} {f : α → Attempt σ β} (hx : Congruent R x)
    (hf : ∀ a, Congruent R (f a)) : Congruent R (x >>= f) := fun s t h =>
  (hx s t h).bind fun a => hf a

lemma Congruent.map {x : Attempt σ α} (hx : Congruent R x) (f : α → β) : Congruent R (f <$> x) :=
  fun s t h => (hx s t h).map f

end Congruent
end ChunkStore.Attempt
