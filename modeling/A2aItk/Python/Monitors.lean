import A2aItk.Python.Effects
import A2aItk.Transition.Runs

/-!
# Watched programs

A program writes a log, and a monitor reads it. Rules for what the monitor has seen when the
program returns and when it raises, and for the cleanup that runs either way.

## Implementation notes

The frame is a part of the state that a program leaves as it found it on both ways out. A
block that runs under another frame puts the old one back (`Watched.within`).
-/

namespace A2aItk.Python

open Transition

universe u

variable {ε σ α β : Type u} {φ ι μ : Type*}

namespace Effects

/-- `try: … finally: cleanup`, where the cleanup does not raise. -/
def ensuring (x : EStateM ε σ α) (cleanup : σ → σ) : EStateM ε σ α := fun s =>
  match x s with
  | .ok a t => .ok a (cleanup t)
  | .error e t => .error e (cleanup t)

/-- A context manager: what leaving it does may depend on the state before it. -/
def within (enter : σ → σ) (leave : σ → σ → σ) (x : EStateM ε σ α) : EStateM ε σ α := fun s =>
  ensuring x (leave s) (enter s)

theorem ensuring_eq_ok_iff {x : EStateM ε σ α} {cleanup : σ → σ} {s s' : σ} {a : α} :
    ensuring x cleanup s = .ok a s' ↔ ∃ t, x s = .ok a t ∧ cleanup t = s' := by
  unfold ensuring
  cases x s <;> simp

theorem ensuring_eq_error_iff {x : EStateM ε σ α} {cleanup : σ → σ} {s s' : σ} {e : ε} :
    ensuring x cleanup s = .error e s' ↔ ∃ t, x s = .error e t ∧ cleanup t = s' := by
  unfold ensuring
  cases x s <;> simp

/-- The state a program ends in, on either way out. -/
def final (x : EStateM ε σ α) (s : σ) : σ :=
  match x s with
  | .ok _ t => t
  | .error _ t => t

theorem ReturnsOnly.ensuring {P : α → Prop} {x : EStateM ε σ α} (h : ReturnsOnly P x)
    (cleanup : σ → σ) : ReturnsOnly P (Effects.ensuring x cleanup) := by
  intro s a t hrun
  obtain ⟨u, hx, -⟩ := ensuring_eq_ok_iff.mp hrun
  exact h s a u hx

theorem RaisesOnly.ensuring {P : ε → Prop} {x : EStateM ε σ α} (h : RaisesOnly P x)
    (cleanup : σ → σ) : RaisesOnly P (Effects.ensuring x cleanup) := by
  intro s e t hrun
  obtain ⟨u, hx, -⟩ := ensuring_eq_error_iff.mp hrun
  exact h s e u hx

theorem RaisesOnly.within {P : ε → Prop} {x : EStateM ε σ α} (h : RaisesOnly P x)
    (enter : σ → σ) (leave : σ → σ → σ) : RaisesOnly P (Effects.within enter leave x) := by
  intro s e t hrun
  exact h.ensuring (leave s) _ e t hrun

end Effects

section Watched

variable (frame : σ → φ) (log : σ → List ι) (step : μ → ι → Option μ)

/-- The frame is as it was, and the monitor accepts what was written meanwhile. -/
def Observes (c : φ) (m m' : μ) (s t : σ) : Prop :=
  frame t = c ∧ ∃ written, log t = log s ++ written ∧ run step m written = some m'

/-- The program started in frame `c`, with the monitor in state `m`. -/
structure Watched (c : φ) (m : μ) (x : EStateM ε σ α) (returns : α → μ → Prop)
    (raises : ε → μ → Prop) : Prop where
  ok : ∀ s a t, frame s = c → x s = .ok a t →
    ∃ m', Observes frame log step c m m' s t ∧ returns a m'
  error : ∀ s e t, frame s = c → x s = .error e t →
    ∃ m', Observes frame log step c m m' s t ∧ raises e m'

/-- What both ways out of a `try` say about its outcome. -/
def Outcome (returns : α → μ → Prop) (raises : ε → μ → Prop) : Except ε α → μ → Prop
  | .ok a => returns a
  | .error e => raises e

variable {frame log step} {c d : φ} {m m' : μ} {x : EStateM ε σ α} {f : α → EStateM ε σ β}
  {returns returns' : α → μ → Prop} {finishes : β → μ → Prop} {raises raises' : ε → μ → Prop}

theorem Observes.refl {s : σ} (h : frame s = c) : Observes frame log step c m m s s :=
  ⟨h, [], (List.append_nil _).symm, rfl⟩

theorem Observes.trans {m₁ m₂ m₃ : μ} {s t u : σ} (h : Observes frame log step c m₁ m₂ s t)
    (h' : Observes frame log step c m₂ m₃ t u) : Observes frame log step c m₁ m₃ s u := by
  obtain ⟨-, w, hlog, hrun⟩ := h
  obtain ⟨hframe, w', hlog', hrun'⟩ := h'
  refine ⟨hframe, w ++ w', ?_, ?_⟩
  · rw [hlog', hlog, List.append_assoc]
  · rw [run_append, hrun]
    exact hrun'

namespace Watched

theorem pure {a : α} (h : returns a m) :
    Watched frame log step c m (pure a : EStateM ε σ α) returns raises where
  ok s a' t hs hrun := by
    cases hrun
    exact ⟨m, .refl hs, h⟩
  error _ _ _ _ hrun := by cases hrun

theorem throw {e : ε} (h : raises e m) :
    Watched frame log step c m (throw e : EStateM ε σ α) returns raises where
  ok _ _ _ _ hrun := by cases hrun
  error s e' t hs hrun := by
    cases hrun
    exact ⟨m, .refl hs, h⟩

/-- One event is written. -/
theorem emit {event : ι} {g : σ → PUnit.{u+1} × σ} (hframe : ∀ s, frame (g s).2 = frame s)
    (hlog : ∀ s, log (g s).2 = log s ++ [event]) (hstep : step m event = some m')
    {returns : PUnit.{u+1} → μ → Prop} (h : returns ⟨⟩ m') :
    Watched frame log step c m (Effects.update g : EStateM ε σ PUnit.{u+1}) returns raises where
  ok s a t hs hrun := by
    cases hrun
    refine ⟨m', ⟨(hframe s).trans hs, [event], hlog s, ?_⟩, h⟩
    rw [run, hstep]
    rfl
  error _ _ _ _ hrun := by cases hrun

theorem mono (h : Watched frame log step c m x returns raises)
    (hreturns : ∀ a m', returns a m' → returns' a m')
    (hraises : ∀ e m', raises e m' → raises' e m') :
    Watched frame log step c m x returns' raises' where
  ok s a t hs hrun := by
    obtain ⟨m', hobserves, h⟩ := h.ok s a t hs hrun
    exact ⟨m', hobserves, hreturns a m' h⟩
  error s e t hs hrun := by
    obtain ⟨m', hobserves, h⟩ := h.error s e t hs hrun
    exact ⟨m', hobserves, hraises e m' h⟩

theorem bind (hx : Watched frame log step c m x returns raises)
    (hf : ∀ a m', returns a m' → Watched frame log step c m' (f a) finishes raises) :
    Watched frame log step c m (x >>= f) finishes raises where
  ok s b t hs hrun := by
    obtain ⟨a, u, hxrun, hfrun⟩ := Effects.bind_eq_ok_iff.mp hrun
    obtain ⟨m', hobserves, ha⟩ := hx.ok s a u hs hxrun
    obtain ⟨m'', hobserves', hb⟩ := (hf a m' ha).ok u b t hobserves.1 hfrun
    exact ⟨m'', hobserves.trans hobserves', hb⟩
  error s e t hs hrun := by
    rcases Effects.bind_eq_error_iff.mp hrun with hxrun | ⟨a, u, hxrun, hfrun⟩
    · exact hx.error s e t hs hxrun
    · obtain ⟨m', hobserves, ha⟩ := hx.ok s a u hs hxrun
      obtain ⟨m'', hobserves', he⟩ := (hf a m' ha).error u e t hobserves.1 hfrun
      exact ⟨m'', hobserves.trans hobserves', he⟩

/-- `try: …`: nothing is raised, and the outcome says which way it went. -/
theorem attempt (hx : Watched frame log step c m x returns raises) :
    Watched frame log step c m (Effects.attempt x) (Outcome returns raises) raises' where
  ok s r t hs hrun := by
    cases r with
    | ok a => exact hx.ok s a t hs (Effects.attempt_apply_eq_ok_iff.mp hrun)
    | error e => exact hx.error s e t hs (Effects.attempt_apply_eq_error_iff.mp hrun)
  error _ _ _ _ hrun := absurd hrun Effects.attempt_apply_ne_error

/-- The cleanup keeps the frame and writes some events, on either way out. -/
theorem ensuring {cleanup : σ → σ} {events : List ι}
    (hx : Watched frame log step c m x returns' raises')
    (hframe : ∀ s, frame (cleanup s) = frame s)
    (hlog : ∀ s, log (cleanup s) = log s ++ events)
    (hreturns : ∀ a m', returns' a m' → ∃ m'', run step m' events = some m'' ∧ returns a m'')
    (hraises : ∀ e m', raises' e m' → ∃ m'', run step m' events = some m'' ∧ raises e m'') :
    Watched frame log step c m (Effects.ensuring x cleanup) returns raises where
  ok s a t hs hrun := by
    obtain ⟨u, hxrun, rfl⟩ := Effects.ensuring_eq_ok_iff.mp hrun
    obtain ⟨m', hobserves, ha⟩ := hx.ok s a u hs hxrun
    obtain ⟨m'', hevents, ha'⟩ := hreturns a m' ha
    exact ⟨m'', hobserves.trans ⟨(hframe u).trans hobserves.1, events, hlog u, hevents⟩, ha'⟩
  error s e t hs hrun := by
    obtain ⟨u, hxrun, rfl⟩ := Effects.ensuring_eq_error_iff.mp hrun
    obtain ⟨m', hobserves, he⟩ := hx.error s e u hs hxrun
    obtain ⟨m'', hevents, he'⟩ := hraises e m' he
    exact ⟨m'', hobserves.trans ⟨(hframe u).trans hobserves.1, events, hlog u, hevents⟩, he'⟩

/-- A block under another frame, which is put back when the block is left. -/
theorem within {enter : σ → σ} {leave : σ → σ → σ}
    (hx : Watched frame log step d m x returns raises)
    (henter : ∀ s, frame s = c → frame (enter s) = d ∧ log (enter s) = log s)
    (hleave : ∀ s t, frame s = c → frame t = d → frame (leave s t) = c ∧
      log (leave s t) = log t) :
    Watched frame log step c m (Effects.within enter leave x) returns raises where
  ok s a t hs hrun := by
    obtain ⟨u, hxrun, rfl⟩ := Effects.ensuring_eq_ok_iff.mp hrun
    obtain ⟨hentered, hlog⟩ := henter s hs
    obtain ⟨m', ⟨hframe, written, hwritten, hmonitor⟩, ha⟩ := hx.ok _ a u hentered hxrun
    obtain ⟨hback, hlog'⟩ := hleave s u hs hframe
    exact ⟨m', ⟨hback, written, by rw [hlog', hwritten, hlog], hmonitor⟩, ha⟩
  error s e t hs hrun := by
    obtain ⟨u, hxrun, rfl⟩ := Effects.ensuring_eq_error_iff.mp hrun
    obtain ⟨hentered, hlog⟩ := henter s hs
    obtain ⟨m', ⟨hframe, written, hwritten, hmonitor⟩, he⟩ := hx.error _ e u hentered hxrun
    obtain ⟨hback, hlog'⟩ := hleave s u hs hframe
    exact ⟨m', ⟨hback, written, by rw [hlog', hwritten, hlog], hmonitor⟩, he⟩

end Watched

end Watched

end A2aItk.Python
