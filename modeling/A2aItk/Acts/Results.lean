import A2aItk.Acts.Operators
import A2aItk.Acts.Schema

/-!
# Results

Per-step and per-test outcomes, and why something failed.

## Implementation notes

A result with a skip reason is a skip: the runner gives a reason nowhere else.
-/

namespace A2aItk.Acts

open Python

/-- Per-test and per-step result. -/
inductive Outcome
  | pass
  | fail
  | skip
  | error
  deriving DecidableEq

/-- Why something failed. What was expected and seen is text, or a count of
delivered notifications. -/
structure FailureDetail where
  message : String
  stepId : Option String := none
  expected : Option Value := none
  actual : Option Value := none
  assertionPath : Option Scalar := none

namespace FailureDetail

/-- `from_assertion`. -/
def fromAssertion (py : Interpreter) (failure : Failure) (stepId : Option String) :
    FailureDetail where
  message := failure.message
  stepId := stepId
  expected := some (.str (failure.expected.text py))
  actual := some (.str (showValue py failure.actual))
  assertionPath := if failure.path.truthy then some failure.path else none

end FailureDetail

/-- One executed step. -/
structure StepResult where
  id : String
  result : Outcome
  durationMs : ℤ
  failure : Option FailureDetail := none
  attempts : ℕ := 1
  checks : ℕ := 0

/-- A skip may have a reason. -/
theorem skip_of_some (reason : String) : (some reason).isSome = true → Outcome.skip = .skip :=
  fun _ => rfl

/-- Without a reason there is nothing to show. -/
theorem skip_of_none (result : Outcome) :
    (none : Option String).isSome = true → result = .skip := by
  intro h
  cases h

/-- What a run of a test found. -/
structure Verdict where
  result : Outcome
  durationMs : ℤ
  skipReason : Option String := none
  failure : Option FailureDetail := none
  steps : List StepResult := []
  skipOfReason : skipReason.isSome = true → result = .skip := by
    first | exact skip_of_some _ | exact skip_of_none _

/-- One test's outcome. `configuration` names the deviation it came from. -/
structure TestResult extends Verdict where
  id : String
  name : String
  level : Level
  configuration : Option String := none

/-- The result of a test with this verdict. -/
def TestFields.resultOf (test : TestFields) (verdict : Verdict) : TestResult :=
  { verdict with id := test.id, name := test.name, level := test.level }

@[simp] theorem TestFields.resultOf_id (test : TestFields) (verdict : Verdict) :
    (test.resultOf verdict).id = test.id := rfl

end A2aItk.Acts
