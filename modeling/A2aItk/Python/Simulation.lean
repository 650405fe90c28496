import A2aItk.Python.Effects

/-!
# Programs in related worlds

Two programs simulate each other where, started in related states, they come to related
values or the same exception, and leave related states behind.
-/

namespace A2aItk.Python.Effects

universe u

variable {ε σ α β : Type u}

/-- Outcomes that correspond. -/
inductive Correspond (R : σ → σ → Prop) (V : α → α → Prop) :
    EStateM.Result ε σ α → EStateM.Result ε σ α → Prop
  | ok {a b : α} {s t : σ} (hvalue : V a b) (hstate : R s t) :
      Correspond R V (.ok a s) (.ok b t)
  | error {e : ε} {s t : σ} (hstate : R s t) : Correspond R V (.error e s) (.error e t)

theorem Correspond.cases {R : σ → σ → Prop} {V : α → α → Prop}
    {p q : EStateM.Result ε σ α} (h : Correspond R V p q) :
    (∃ a b s t, p = .ok a s ∧ q = .ok b t ∧ V a b ∧ R s t) ∨
      ∃ e s t, p = .error e s ∧ q = .error e t ∧ R s t := by
  cases h with
  | ok hvalue hstate => exact .inl ⟨_, _, _, _, rfl, rfl, hvalue, hstate⟩
  | error hstate => exact .inr ⟨_, _, _, rfl, rfl, hstate⟩

/-- Started in related states, the programs come to outcomes that correspond. -/
def Simulates (R : σ → σ → Prop) (V : α → α → Prop) (x y : EStateM ε σ α) : Prop :=
  ∀ s t, R s t → Correspond R V (x s) (y t)

/-- The program cannot tell related worlds apart. -/
abbrev Blind (R : σ → σ → Prop) (x : EStateM ε σ α) : Prop := Simulates R Eq x x

namespace Simulates

variable {R : σ → σ → Prop} {V : α → α → Prop} {W : β → β → Prop}
variable {x y : EStateM ε σ α}

theorem mono {V' : α → α → Prop} (h : Simulates R V x y) (hV : ∀ a b, V a b → V' a b) :
    Simulates R V' x y := by
  intro s t hst
  obtain ⟨a, b, u, v, hx, hy, hvalue, hstate⟩ | ⟨e, u, v, hx, hy, hstate⟩ := (h s t hst).cases
  · rw [hx, hy]
    exact .ok (hV a b hvalue) hstate
  · rw [hx, hy]
    exact .error hstate

theorem refl (x : EStateM ε σ α) : Simulates Eq Eq x x := by
  rintro s _ rfl
  cases x s with
  | ok a t => exact .ok rfl rfl
  | error e t => exact .error rfl

theorem pure {a b : α} (h : V a b) :
    Simulates R V (pure a : EStateM ε σ α) (pure b) :=
  fun _ _ hst => .ok h hst

theorem throw (e : ε) : Simulates R V (throw e : EStateM ε σ α) (throw e) :=
  fun _ _ hst => .error hst

theorem update {f g : σ → α × σ} (h : ∀ s t, R s t → V (f s).1 (g t).1 ∧ R (f s).2 (g t).2) :
    Simulates R V (update f : EStateM ε σ α) (update g) :=
  fun s t hst => .ok (h s t hst).1 (h s t hst).2

/-- A computation without state simulates itself. -/
theorem lift (y : Except ε α) :
    Blind R (lift y : EStateM ε σ α) := by
  cases y with
  | ok a => exact pure rfl
  | error e => exact throw e

theorem bind {f g : α → EStateM ε σ β} (hx : Simulates R V x y)
    (hf : ∀ a b, V a b → Simulates R W (f a) (g b)) : Simulates R W (x >>= f) (y >>= g) := by
  intro s t hst
  obtain ⟨a, b, u, v, hxs, hyt, hvalue, hstate⟩ | ⟨e, u, v, hxs, hyt, hstate⟩ :=
    (hx s t hst).cases
  · rw [bind_apply_of_ok hxs, bind_apply_of_ok hyt]
    exact hf a b hvalue u v hstate
  · rw [bind_apply_of_error hxs, bind_apply_of_error hyt]
    exact .error hstate

/-- Programs that go on with the same value. -/
theorem andThen {f g : α → EStateM ε σ β} (hx : Simulates R Eq x y)
    (hf : ∀ a, Simulates R W (f a) (g a)) : Simulates R W (x >>= f) (y >>= g) := by
  apply hx.bind
  rintro a _ rfl
  exact hf a

theorem map {f : α → β} (hx : Simulates R Eq x y) : Simulates R Eq (f <$> x) (f <$> y) := by
  rw [← bind_pure_comp, ← bind_pure_comp]
  exact hx.andThen fun a => pure rfl

theorem mapM {f : α → EStateM ε σ β} {l : List α}
    (hf : ∀ a ∈ l, Blind R (f a)) : Blind R (l.mapM f) := by
  induction l with
  | nil => exact pure rfl
  | cons a rest ih =>
      rw [List.mapM_cons]
      apply (hf a List.mem_cons_self).andThen
      intro b
      apply (ih fun c hc => hf c (List.mem_cons_of_mem a hc)).andThen
      intro bs
      exact pure rfl

/-- Handlers see related values or the same exception. -/
theorem attemptRel (hx : Simulates R V x y) :
    Simulates R (fun p q => (∃ a b, p = .ok a ∧ q = .ok b ∧ V a b) ∨
      ∃ e : ε, p = .error e ∧ q = .error e) (attempt x) (attempt y) := by
  intro s t hst
  obtain ⟨a, b, u, v, hxs, hyt, hvalue, hstate⟩ | ⟨e, u, v, hxs, hyt, hstate⟩ :=
    (hx s t hst).cases
  · rw [attempt_apply_of_ok hxs, attempt_apply_of_ok hyt]
    exact .ok (.inl ⟨a, b, rfl, rfl, hvalue⟩) hstate
  · rw [attempt_apply_of_error hxs, attempt_apply_of_error hyt]
    exact .ok (.inr ⟨e, rfl, rfl⟩) hstate

theorem attempt (hx : Simulates R Eq x y) : Simulates R Eq (attempt x) (attempt y) := by
  apply hx.attemptRel.mono
  rintro p q (⟨a, _, rfl, rfl, rfl⟩ | ⟨e, rfl, rfl⟩)
  · rfl
  · rfl

end Simulates

end A2aItk.Python.Effects
