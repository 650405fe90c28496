import A2aItk.Python.Exceptions

/-!
# Programs with state and exceptions

Inversion rules for `EStateM`, where the state survives an exception, and the
programs that return from a given state.
-/

namespace A2aItk.Python

universe u

variable {ε σ α β : Type u}

namespace Effects

/-- What a finished `bind` says about its parts. -/
theorem bind_eq_ok_iff {x : EStateM ε σ α} {f : α → EStateM ε σ β} {s s' : σ} {b : β} :
    (x >>= f) s = .ok b s' ↔ ∃ a t, x s = .ok a t ∧ f a t = .ok b s' := by
  change EStateM.bind x f s = _ ↔ _
  unfold EStateM.bind
  cases x s with
  | ok a t =>
      constructor
      · intro h
        exact ⟨a, t, rfl, h⟩
      · rintro ⟨_, _, ⟨⟩, h⟩
        exact h
  | error e t => simp

/-- A `bind` raises in its first part or, after that finished, in the second. -/
theorem bind_eq_error_iff {x : EStateM ε σ α} {f : α → EStateM ε σ β} {s s' : σ} {e : ε} :
    (x >>= f) s = .error e s' ↔
      x s = .error e s' ∨ ∃ a t, x s = .ok a t ∧ f a t = .error e s' := by
  change EStateM.bind x f s = _ ↔ _
  unfold EStateM.bind
  cases x s with
  | ok a t =>
      constructor
      · intro h
        exact .inr ⟨a, t, rfl, h⟩
      · rintro (h | ⟨_, _, ⟨⟩, h⟩)
        · cases h
        · exact h
  | error e t => simp

/-- A result that is mapped was returned. -/
theorem map_eq_ok_iff {x : EStateM ε σ α} {f : α → β} {s s' : σ} {b : β} :
    (f <$> x) s = .ok b s' ↔ ∃ a, x s = .ok a s' ∧ f a = b := by
  change EStateM.map f x s = _ ↔ _
  unfold EStateM.map
  cases x s with
  | ok a t =>
      constructor
      · intro h
        cases h
        exact ⟨a, rfl, rfl⟩
      · rintro ⟨_, ⟨⟩, rfl⟩
        rfl
  | error e t => simp

/-- The second part goes on where the first has left off. -/
theorem bind_apply_of_ok {x : EStateM ε σ α} {f : α → EStateM ε σ β} {s t : σ} {a : α}
    (h : x s = .ok a t) : (x >>= f) s = f a t := by
  change EStateM.bind x f s = f a t
  rw [EStateM.bind, h]

/-- An exception of the first part is that of the sequence. -/
theorem bind_apply_of_error {x : EStateM ε σ α} {f : α → EStateM ε σ β} {s t : σ} {e : ε}
    (h : x s = .error e t) : (x >>= f) s = .error e t := by
  change EStateM.bind x f s = .error e t
  rw [EStateM.bind, h]

/-- Returning leaves the state alone. -/
@[simp] theorem pure_apply (a : α) (s : σ) : (pure a : EStateM ε σ α) s = .ok a s := rfl

/-- Raising leaves the state alone. -/
@[simp] theorem throw_apply (e : ε) (s : σ) : (throw e : EStateM ε σ α) s = .error e s := rfl

/-- A state transformer that cannot raise. -/
def update (f : σ → α × σ) : EStateM ε σ α := fun s => .ok (f s).1 (f s).2

/-- An update reads and writes the state. -/
@[simp] theorem update_apply (f : σ → α × σ) (s : σ) :
    (update f : EStateM ε σ α) s = .ok (f s).1 (f s).2 := rfl

/-- A computation without state. -/
def lift : Except ε α → EStateM ε σ α
  | .ok a => pure a
  | .error e => throw e

/-- A computation without effects leaves the state alone. -/
@[simp] theorem lift_apply_eq_ok_iff {x : Except ε α} {a : α} {s s' : σ} :
    (lift x : EStateM ε σ α) s = .ok a s' ↔ x = .ok a ∧ s = s' := by
  cases x <;> simp [lift]

/-- A computation without effects leaves the state alone where it raises, too. -/
@[simp] theorem lift_apply_eq_error_iff {x : Except ε α} {e : ε} {s s' : σ} :
    (lift x : EStateM ε σ α) s = .error e s' ↔ x = .error e ∧ s = s' := by
  cases x <;> simp [lift]

/-- `try: …`: the exception, if there was one, as a value for its handlers. -/
def attempt (x : EStateM ε σ α) : EStateM ε σ (Except ε α) := fun s =>
  match x s with
  | .ok a t => .ok (.ok a) t
  | .error e t => .ok (.error e) t

/-- An attempt has a result where the computation has. -/
@[simp] theorem attempt_apply_eq_ok_iff {x : EStateM ε σ α} {a : α} {s s' : σ} :
    attempt x s = .ok (.ok a) s' ↔ x s = .ok a s' := by
  unfold attempt
  cases x s <;> simp

/-- An attempt has an exception where the computation raises it; its effects are kept. -/
@[simp] theorem attempt_apply_eq_error_iff {x : EStateM ε σ α} {e : ε} {s s' : σ} :
    attempt x s = .ok (.error e) s' ↔ x s = .error e s' := by
  unfold attempt
  cases x s <;> simp

/-- From a result to the attempt. -/
theorem attempt_apply_of_ok {x : EStateM ε σ α} {s t : σ} {a : α} (h : x s = .ok a t) :
    attempt x s = .ok (.ok a) t := by
  rw [attempt, h]

/-- From an exception to the attempt. -/
theorem attempt_apply_of_error {x : EStateM ε σ α} {s t : σ} {e : ε} (h : x s = .error e t) :
    attempt x s = .ok (.error e) t := by
  rw [attempt, h]

/-- An attempt raises nothing itself. -/
@[simp] theorem attempt_apply_ne_error {x : EStateM ε σ α} {e : ε} {s s' : σ} :
    attempt x s ≠ .error e s' := by
  unfold attempt
  cases x s <;> simp

/-- Renamed exceptions: the result is the same. -/
theorem adaptExcept_eq_ok_iff {ε' : Type u} {f : ε → ε'} {x : EStateM ε σ α} {s s' : σ} {a : α} :
    EStateM.adaptExcept f x s = .ok a s' ↔ x s = .ok a s' := by
  unfold EStateM.adaptExcept
  cases x s <;> simp

/-- An exception that is replaced was raised. -/
theorem adaptExcept_eq_error_iff {ε' : Type u} {f : ε → ε'} {x : EStateM ε σ α} {s s' : σ}
    {e : ε'} : EStateM.adaptExcept f x s = .error e s' ↔ ∃ e', x s = .error e' s' ∧ f e' = e := by
  unfold EStateM.adaptExcept
  cases x s <;> simp [and_comm]

/-- The program returns a value when started in this state. -/
def Returns (x : EStateM ε σ α) (s : σ) : Prop := ∃ a t, x s = .ok a t

/-- A computation that only returns does so in every state. -/
@[simp] theorem returns_pure (a : α) (s : σ) : Returns (pure a : EStateM ε σ α) s := ⟨a, s, rfl⟩

/-- Every exception the program can raise, from any state, satisfies `P`. -/
def RaisesOnly (P : ε → Prop) (x : EStateM ε σ α) : Prop := ∀ s e t, x s = .error e t → P e

namespace RaisesOnly

variable {P : ε → Prop} {x : EStateM ε σ α}

/-- Returning raises nothing. -/
theorem pure (P : ε → Prop) (a : α) : RaisesOnly P (pure a : EStateM ε σ α) := by
  intro s e t h
  cases h

/-- An exception is raised if it is one that may be. -/
theorem throw {e : ε} (h : P e) : RaisesOnly P (throw e : EStateM ε σ α) := by
  intro s e' t he
  cases he
  exact h

/-- An update raises nothing. -/
theorem update (P : ε → Prop) (f : σ → α × σ) : RaisesOnly P (update f) := by
  intro s e t h
  cases h

/-- A computation without effects raises what it raises. -/
theorem lift {y : Except ε α} (h : Python.RaisesOnly P y) :
    RaisesOnly P (lift y : EStateM ε σ α) := by
  intro s e t he
  exact h e (lift_apply_eq_error_iff.mp he).1

/-- An attempt raises nothing. -/
theorem attempt (P : ε → Prop) : RaisesOnly P (attempt x) := by
  intro s e t h
  exact absurd h attempt_apply_ne_error

/-- The exceptions of a sequence are those of its parts. -/
theorem bind {f : α → EStateM ε σ β} (hx : RaisesOnly P x) (hf : ∀ a, RaisesOnly P (f a)) :
    RaisesOnly P (x >>= f) := by
  intro s e t h
  cases bind_eq_error_iff.mp h with
  | inl h => exact hx s e t h
  | inr h =>
      obtain ⟨a, u, -, h⟩ := h
      exact hf a u e t h

/-- Mapping a result raises nothing. -/
theorem map {f : α → β} (hx : RaisesOnly P x) : RaisesOnly P (f <$> x) := by
  rw [← bind_pure_comp]
  exact hx.bind fun a => pure P (f a)

/-- The exceptions over a list are those at its elements. -/
theorem mapM {f : α → EStateM ε σ β} {l : List α} (hf : ∀ a ∈ l, RaisesOnly P (f a)) :
    RaisesOnly P (l.mapM f) := by
  induction l with
  | nil => exact pure P []
  | cons a rest ih =>
      rw [List.mapM_cons]
      apply (hf a (by simp)).bind
      intro b
      apply (ih fun c hc => hf c (by simp [hc])).bind
      intro bs
      exact pure P (b :: bs)

/-- What a `try` with its handlers raises. -/
theorem handle {Q : ε → Prop} {f : Except ε α → EStateM ε σ β} (hx : RaisesOnly Q x)
    (hok : ∀ a, RaisesOnly P (f (.ok a))) (herror : ∀ e, Q e → RaisesOnly P (f (.error e))) :
    RaisesOnly P (Effects.attempt x >>= f) := by
  intro s e t h
  cases bind_eq_error_iff.mp h with
  | inl h => exact absurd h attempt_apply_ne_error
  | inr h =>
      obtain ⟨y, u, hy, h⟩ := h
      cases y with
      | ok a => exact hok a u e t h
      | error e' => exact herror e' (hx s e' u (attempt_apply_eq_error_iff.mp hy)) u e t h

end RaisesOnly

/-- Every value the program can return, from any state, satisfies `P`. -/
def ReturnsOnly (P : α → Prop) (x : EStateM ε σ α) : Prop := ∀ s a t, x s = .ok a t → P a

namespace ReturnsOnly

variable {P : β → Prop}

/-- What is returned has the property. -/
theorem pure {b : β} (h : P b) : ReturnsOnly P (pure b : EStateM ε σ β) := by
  intro s b' t hb
  cases hb
  exact h

/-- What raises returns nothing. -/
theorem throw (P : β → Prop) (e : ε) : ReturnsOnly P (throw e : EStateM ε σ β) := by
  intro s b t hb
  cases hb

/-- What a `bind` returns comes from its second part. -/
theorem bind {x : EStateM ε σ α} {f : α → EStateM ε σ β} (hf : ∀ a, ReturnsOnly P (f a)) :
    ReturnsOnly P (x >>= f) := by
  intro s b t h
  obtain ⟨a, u, -, h⟩ := bind_eq_ok_iff.mp h
  exact hf a u b t h

end ReturnsOnly

end Effects

end A2aItk.Python
