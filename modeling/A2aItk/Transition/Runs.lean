import Mathlib.Data.Option.Basic

/-!
# Runs of a guarded step function

A system is a step function: `step s a` is the state after action `a`, or `none`
where `a` is not enabled. A run is the actions it performs.

## Implementation notes

A run is a list, so a concrete one can be evaluated. Every prefix of a run is a
run: what holds at the end of every run holds in every state on the way.
-/

namespace A2aItk.Transition

variable {σ ι : Type*} {step : σ → ι → Option σ} {guard : σ → ι → Prop}

/-- The state after the actions, where each is enabled in its turn. -/
def run (step : σ → ι → Option σ) (s : σ) : List ι → Option σ
  | [] => some s
  | a :: rest => (step s a).bind fun s' => run step s' rest

/-- Every action of a run meets a condition in the state it is performed in. -/
def Meets (step : σ → ι → Option σ) (guard : σ → ι → Prop) (s : σ) : List ι → Prop
  | [] => True
  | a :: rest => guard s a ∧
      match step s a with
      | some s' => Meets step guard s' rest
      | none => True

instance decidableMeets (step : σ → ι → Option σ) (guard : σ → ι → Prop)
    [∀ s a, Decidable (guard s a)] (s : σ) :
    (actions : List ι) → Decidable (Meets step guard s actions)
  | [] => isTrue trivial
  | a :: rest =>
      match h : step s a with
      | some s' =>
          have := decidableMeets step guard s' rest
          decidable_of_iff (guard s a ∧ Meets step guard s' rest) (by rw [Meets, h])
      | none => decidable_of_iff (guard s a) (by simp [Meets, h])

theorem run_cons_eq_some_iff {s t : σ} {a : ι} {rest : List ι} :
    run step s (a :: rest) = some t ↔ ∃ s', step s a = some s' ∧ run step s' rest = some t := by
  rw [run, Option.bind_eq_some_iff]

theorem run_append {s : σ} {xs ys : List ι} :
    run step s (xs ++ ys) = (run step s xs).bind fun s' => run step s' ys := by
  induction xs generalizing s with
  | nil => rfl
  | cons a rest ih =>
      rw [List.cons_append, run, run, Option.bind_assoc]
      apply congrArg
      ext1 s'
      exact ih

theorem Meets.tail {s s' : σ} {a : ι} {rest : List ι} (h : Meets step guard s (a :: rest))
    (hstep : step s a = some s') : Meets step guard s' rest := by
  rw [Meets, hstep] at h
  exact h.2

/-- What holds at the start, and is kept by every step that meets the condition,
holds at the end of every run whose steps meet it. -/
theorem invariant {I : σ → Prop}
    (hkept : ∀ s a s', I s → guard s a → step s a = some s' → I s')
    {actions : List ι} {s t : σ} (hs : I s) (hmeets : Meets step guard s actions)
    (hrun : run step s actions = some t) : I t := by
  induction actions generalizing s with
  | nil =>
      obtain rfl := Option.some.inj hrun
      exact hs
  | cons a rest ih =>
      obtain ⟨s', hstep, hrest⟩ := run_cons_eq_some_iff.mp hrun
      exact ih (hkept s a s' hs hmeets.1 hstep) (hmeets.tail hstep) hrest

end A2aItk.Transition
