import A2aItk.Acts.Runner

/-!
# Streaming steps, tests and suites

The step that opens streams, the handlers around a step of any kind, and the loops
over the steps of a test and the tests of a suite.
-/

namespace A2aItk.Acts

open Python

namespace Runner

variable {σ : Type} (runner : Runner σ)

section Streaming

/-- The plans of a streaming step: one of nothing where it declares no `streams`. -/
def streamPlans (step : StepFields) : List (Option StreamPlan) :=
  if step.plans.isEmpty then [none] else step.plans.map some

/-- `_stream_opener`: the request every stream of the step is opened with. -/
def streamRequest (step : StepFields) (scope : Scope) : EStateM Exception σ StreamRequest :=
  match step.kind, step.raw, step.operation with
  | .raw, some raw, _ => do
      let raw ← scope.resolvedRaw runner.py runner.newUuid raw
      pure (.raw raw rawHeaders)
  | _, _, some operation => do
      let params ← runner.prepareParams operation (step.params.getD []) scope
      pure (.operation operation params runner.headers)
  | _, _, none => throw (.builtin (.keyError "None"))

/-- The error a refused stream is judged on, and the reply's own error. -/
def refusedError : Exception → Option (Fields × Option WireError)
  | .streamNotOpened message response =>
      match response.error with
      | some error => some (error.observed, some error)
      | none => some ([("message", .str message)], none)
  | e => if e.isDispatchError then some ([("message", .str e.message)], none) else none

/-- `_stream_refusal`: what a stream that never opened means for the step. -/
def streamRefusal (step : StepFields) (scope : Scope) (started : ℚ) (e : Exception) :
    EStateM Exception σ (StepResult × Scope) :=
  match step.expectError, refusedError e with
  | some expected, some (observed, error) => do
      let resolved ← scope.resolvedError runner.py runner.newUuid expected
      let result ← Effects.lift (evaluateError runner.py resolved observed)
      runner.finish step scope (error.elim result (explainUnnamed runner.py result)) started 1
  | _, _ => throw e

/-- `_evaluate_stream_status`. -/
def evaluateStreamStatus (step : StepFields) (scope : Scope) (status : Option ℤ) (count : ℕ) :
    EStateM Exception σ AssertionResult :=
  match step.expect with
  | none => pure .pass
  | some block =>
      if block.status.isNull then pure .pass
      else do
        let tree ← runner.substitute scope block.status
        match status with
        | none => pure (failed
            (s!"expected a status, but the stream produced no observable one ({count} " ++
              "event(s); gRPC has no HTTP status)") tree .null)
        | some status => Effects.lift (evaluateStatus runner.py tree (.int status))

/-- What one stream of the step comes to. -/
def evaluateCollected (step : StepFields) (scope : Scope) (plan : Option StreamPlan)
    (collected : Collected) : EStateM Exception σ AssertionResult := do
  let count := collected.events.length
  let shared ← match step.expectStream with
    | some block =>
        Effects.lift (evaluateStream runner.py block.toStreamAssertions collected.events
          collected.timedOut)
    | none => pure (if step.expectError.isSome then
        failed s!"expected an error, but the stream opened and produced {count} event(s)"
          (.str "an error") (.str s!"{count} event(s)")
        else .pass)
  let own ← match plan with
    | some plan =>
        Effects.lift (evaluateStream runner.py plan.toStreamAssertions collected.events false)
    | none => pure .pass
  let status ← runner.evaluateStreamStatus step scope collected.status count
  pure (shared + own + status)

/-- The streams of a step, each attributed its own failures where there are several. -/
def evaluateAll (step : StepFields) (scope : Scope) (total : ℕ) :
    List ((Option StreamPlan × Collected) × ℕ) → EStateM Exception σ AssertionResult
  | [] => pure .pass
  | ((plan, collected), index) :: rest => do
      let one ← runner.evaluateCollected step scope plan collected
      let others ← evaluateAll step scope total rest
      pure ((if total = 1 then one else withinStream runner.py one index plan) + others)

/-- The first stream still open at a deadline the step did not declare. -/
def overdue (step : StepFields) (collected : List Collected) : Option (Collected × ℕ) :=
  if (declaredTimeout step.expectStream).isSome then none
  else collected.zipIdx.find? fun entry => entry.1.timedOut

/-- What the streams come to, once all are read. -/
def judgeStreams (step : StepFields) (scope : Scope) (started : ℚ)
    (collected : List Collected) : EStateM Exception σ (StepResult × Scope) :=
  let plans := streamPlans step
  match overdue step collected with
  | some (late, index) =>
      runner.stepMessage step scope .error started
        (streamLabel index plans.length ++ s!"still open after {runner.streamTimeoutMs}ms " ++
          "and the step declares no `timeout_ms`; stopped reading at " ++
          s!"{late.events.length} event(s)")
  | none => do
      let payloads := Value.list ((collected.head?.elim [] Collected.events).map
        StreamedEvent.payload)
      let scope := scope.recordResponse step.id payloads
      match ← captureStep step scope payloads with
      | (scope, some missed) => runner.stepMessage step scope .fail started missed
      | (scope, none) => do
          let result ← runner.evaluateAll step scope plans.length (plans.zip collected).zipIdx
          runner.finish step scope result started 1

/-- The first exception among the streams, or all that was read. -/
def gathered (step : StepFields) (scripts : ℕ → StreamScript) : Except Exception (List Collected) :=
  (streamPlans step).zipIdx.mapM fun entry =>
    collect (scripts entry.2) step.expectStream (entry.1.bind StreamPlan.disconnectAfter)

/-- `_run_streaming_step`. -/
def runStreamingStep (step : StepFields) (scope : Scope) (started : ℚ) :
    EStateM Exception σ (StepResult × Scope) :=
  if step.repetition.isSome then
    runner.stepMessage step scope .error started "`repeat` cannot re-dispatch a streaming step"
  else do
    match ← Effects.attempt (runner.streamRequest step scope) with
    | .error e =>
        if e.isUnresolvedOrPath then runner.stepMessage step scope .error started e.message
        else throw e
    | .ok request => do
        let deadline := (declaredTimeout step.expectStream).getD runner.streamTimeoutMs
        let scripts ← Effects.update (runner.openStreams request (streamPlans step).length deadline)
        match gathered step scripts with
        | .error e => runner.streamRefusal step scope started e
        | .ok collected => runner.judgeStreams step scope started collected

end Streaming

section Steps

/-- The definition a step is run by. -/
def runKind (step : StepFields) (scope : Scope) (started : ℚ) :
    EStateM Exception σ (StepResult × Scope) :=
  match step.kind with
  | .client =>
      match step.clientResponse with
      | some block => runner.runClientStep step block scope started
      | none => throw (.builtin .attributeError)
  | .webhook =>
      match step.expectWebhook with
      | some block => runner.runWebhookStep step block scope started
      | none => throw (.builtin .attributeError)
  | kind =>
      if step.streams then runner.runStreamingStep step scope started
      else
        match kind, step.raw, step.operation with
        | .raw, some raw, _ => runner.runRawStep step raw scope started
        | _, _, some operation => runner.runOperationStep step operation scope started
        | _, _, none => throw (.builtin (.keyError "None"))

/-- When the step was started, once its delay is over. -/
def beginStep (step : StepFields) : EStateM Exception σ ℚ := do
  let started ← runner.now
  if 0 < step.delayMs.getD 0 then runner.pause (step.delayMs.getD 0 / 1000)
  pure started

/-- `_run_step`. -/
def runStep (step : StepFields) (scope : Scope) : EStateM Exception σ (StepResult × Scope) := do
  let started ← runner.beginStep step
  match ← Effects.attempt (runner.runKind step scope started) with
  | .ok result => pure result
  | .error e =>
      -- an answer of the wrong shape is a finding about the SUT
      if e.isMalformedResponse then runner.stepMessage step scope .fail started e.message
      else if e.isDispatchError then runner.stepMessage step scope .error started e.message
      else throw e

/-- The steps of a test, up to the first that does not pass. -/
def runSteps : List Step → Scope → List StepResult →
    EStateM Exception σ (List StepResult × Option StepResult × Scope)
  | [], scope, done => pure (done, none, scope)
  | step :: rest, scope, done => do
      let (result, scope) ← runner.runStep step.toStepFields scope
      if result.result = .pass then runSteps rest scope (done ++ [result])
      else pure (done ++ [result], some result, scope)

end Steps

section Tests

/-- What the runner checks before a test. -/
def gate : Gate where
  binding := runner.binding
  agentCard := runner.agentCard
  capabilities := runner.capabilities

/-- `_behavior_gap`. -/
def behaviorGap (test : TestFields) : Option String :=
  runner.sutBehaviors.bind fun declared =>
    let missing := test.behaviors.filter (· ∉ declared)
    if missing.isEmpty then none
    else some ("SUT does not declare behavior(s) " ++ joinSorted missing ++
      "; the test cannot be satisfied without them")

/-- `_result`, for an outcome that is not a skip. -/
def testResult (test : TestFields) (outcome : Outcome) (started : ℚ)
    (failure : Option FailureDetail) (steps : List StepResult) :
    EStateM Exception σ TestResult := do
  let durationMs ← runner.elapsedMs started
  pure (test.resultOf { result := outcome, durationMs, failure, steps })

/-- `_result` of a skip. -/
def skipResult (test : TestFields) (started : ℚ) (reason : String) :
    EStateM Exception σ TestResult := do
  let durationMs ← runner.elapsedMs started
  pure (test.resultOf { result := .skip, durationMs, skipReason := some reason })

/-- The scope a test starts with: the runner's variables overlay the document's. -/
def initialScope (vars : Dict String Value) : Scope where
  vars := vars.update runner.vars.entries
  env := runner.environ
  captures := Dict.empty

/-- A test that is not held back: its steps, and then its own assertions. -/
def runUngated (test : Test) (vars : Dict String Value) (started : ℚ) :
    EStateM Exception σ TestResult := do
  match ← runner.runSteps test.steps (runner.initialScope vars) [] with
  | (steps, some last, _) =>
      runner.testResult test.toTestFields last.result started last.failure steps
  | (steps, none, scope) => do
      match ← runner.evaluateAssertions scope none (test.assertions.getD []) with
      | some failure => runner.testResult test.toTestFields .fail started (some failure) steps
      | none => runner.testResult test.toTestFields .pass started none steps

/-- `run_test`. -/
def runTest (test : Test) (vars : Dict String Value) : EStateM Exception σ TestResult := do
  let started ← runner.now
  match runner.gate.skipReason runner.py test.toTestFields with
  | .error (.runError message) =>
      runner.testResult test.toTestFields .error started (some { message }) []
  | .error e => throw e
  | .ok (some reason) => runner.skipResult test.toTestFields started reason
  | .ok none =>
      match runner.behaviorGap test.toTestFields with
      | some gap => runner.testResult test.toTestFields .fail started (some { message := gap }) []
      | none => runner.runUngated test vars started

/-- `run_suite`: every test in order. -/
def runSuite (vars : Dict String Value) (tests : List Test) :
    EStateM Exception σ (List TestResult) :=
  tests.mapM fun test => runner.runTest test (vars.update runner.vars.entries)

end Tests

end Runner

end A2aItk.Acts
