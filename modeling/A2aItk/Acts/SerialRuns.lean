import A2aItk.Acts.ConformanceRuns

/-!
# The agents of a conformance run

Whatever the outside does, a run has one agent at a time, starts each with the environment it
is meant to see, and leaves `os.environ` as it found it.

## Implementation notes

The monitor holds what is open. It refuses an event that has no place there: a second agent, a
child with another environment, a receiver that outlives its agent.
-/

namespace A2aItk.Acts

open Python

/-- The order of the passes. -/
def Pass.rank : Option Pass → ℕ
  | none => 0
  | some .reduced => 1
  | some .auth => 2

/-- What a SUT is meant to see: its own deviation and nothing else. -/
def Pass.environ (environ : Dict String String) : Option Pass → Dict String String
  | none => environ
  | some pass => environ.set pass.envVar "1"

/-- What a run has open, and the first pass it may still start. `served` is the reserved
port, once a receiver was started on it. -/
structure Monitor where
  sut : Option (Option Pass) := none
  port : Option ℕ := none
  receiver : Option ℕ := none
  served : Option ℕ := none
  next : ℕ := 0
  deriving DecidableEq

namespace Monitor

/-- An event, for a run that starts in this environment and may start agents. -/
def step (environ : Dict String String) (starts : Bool) (m : Monitor) : Event → Option Monitor
  | .startSut pass child =>
      if starts = true ∧ m.sut = none ∧ m.port = none ∧ m.next ≤ Pass.rank pass ∧
          child.entries = (Pass.environ environ pass).entries then
        some { m with sut := some pass, next := Pass.rank pass + 1 }
      else none
  | .stopSut pass =>
      if m.sut = some pass ∧ m.receiver = none then some { m with sut := none } else none
  | .reservePort port => if m.port = none then some { m with port := some port } else none
  | .startReceiver port =>
      if m.port = some port ∧ m.receiver = none then
        some { m with receiver := some port, served := some port }
      else none
  | .stopReceiver port =>
      if m.receiver = some port then some { m with receiver := none } else none
  | .releasePort port =>
      if m.port = some port ∧ m.receiver = none then
        some { m with port := none, served := none }
      else none
  | .closeDispatcher => if m.receiver = none then some m else none

/-- Nothing is open, and the passes from this one on may still come. -/
structure Settled (next : ℕ) (m : Monitor) : Prop where
  sut : m.sut = none
  port : m.port = none
  receiver : m.receiver = none
  served : m.served = none
  bound : m.next ≤ next

/-- A later pass may still be to come. -/
theorem Settled.mono {next next' : ℕ} {m : Monitor} (h : m.Settled next) (hle : next ≤ next') :
    m.Settled next' :=
  ⟨h.sut, h.port, h.receiver, h.served, h.bound.trans hle⟩

/-- With its agent running. -/
def started (m : Monitor) (pass : Option Pass) : Monitor :=
  { m with sut := some pass, next := Pass.rank pass + 1 }

/-- With its agent stopped. -/
def stopped (m : Monitor) : Monitor := { m with sut := none }

end Monitor

namespace Harness

section Failures

variable {σ : Type} (harness : Harness σ)

/-- The receiver could not be spawned on this port, which raised the exception. -/
def SpawnFailed (port : ℕ) (e : RunFailure) : Prop :=
  ∃ s raised, (harness.startReceiver port s).1 = some raised ∧ e = .raised raised

/-- No port is reserved, or the receiver could not be spawned on the one that is. -/
def PortKept (e : RunFailure) (m : Monitor) : Prop :=
  m.port = none ∨ ∃ port, m.port = some port ∧ harness.SpawnFailed port e

/-- The monitor is back where it was, or the receiver could not be spawned and leaves its
port reserved. -/
def Abandoned (m : Monitor) (e : RunFailure) (m' : Monitor) : Prop :=
  m' = m ∨ ∃ port, harness.SpawnFailed port e ∧ m' = { m with port := some port }

/-- What a pass, or a run, leaves behind when it raises. -/
structure Raised (next : ℕ) (e : RunFailure) (m : Monitor) : Prop where
  sut : m.sut = none
  receiver : m.receiver = none
  served : m.served = none
  port : harness.PortKept e m
  bound : m.next ≤ next

variable {harness} {next next' : ℕ} {e : RunFailure} {m m' : Monitor}

/-- A spawn that fails raises what the operating system does. -/
theorem SpawnFailed.not_actsRunError {port : ℕ} (h : harness.SpawnFailed port e) :
    e.isActsRunError = false := by
  obtain ⟨s, raised, -, rfl⟩ := h
  rfl

theorem Raised.mono (h : harness.Raised next e m) (hle : next ≤ next') :
    harness.Raised next' e m :=
  ⟨h.sut, h.receiver, h.served, h.port, h.bound.trans hle⟩

/-- A run that is settled may raise anything. -/
theorem raised_of_settled (h : m.Settled next) (e : RunFailure) : harness.Raised next e m :=
  ⟨h.sut, h.receiver, h.served, .inl h.port, h.bound⟩

/-- An `ActsRunError` leaves nothing open. -/
theorem Raised.settled (h : harness.Raised next e m) (he : e.isActsRunError = true) :
    m.Settled next := by
  refine ⟨h.sut, ?_, h.receiver, h.served, h.bound⟩
  rcases h.port with hnone | ⟨port, -, hfailed⟩
  · exact hnone
  · rw [hfailed.not_actsRunError] at he
    cases he

theorem Abandoned.raised (h : harness.Abandoned m e m') (hm : m.Settled next) :
    harness.Raised next e m' := by
  rcases h with rfl | ⟨port, hfailed, rfl⟩
  · exact raised_of_settled hm e
  · exact ⟨hm.sut, hm.receiver, hm.served, .inr ⟨port, rfl, hfailed⟩, hm.bound⟩

end Failures

section Serial

variable {σ α : Type} (harness : Harness σ) {environ child : Dict String String} {starts : Bool}
  {m : Monitor}

end Serial

end Harness

end A2aItk.Acts
