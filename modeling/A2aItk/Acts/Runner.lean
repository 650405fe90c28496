import A2aItk.Acts.Exchanges

/-!
# The runner

One definition for each way a step is run, what turns an exchange into a result, and
the loops over the steps of a test and the tests of a suite.

## Implementation notes

The scope of a test is passed from step to step. An exception that a handler of the
source catches is a value there; the others leave the definition as they came.
-/

namespace A2aItk.Acts

open Python

/-- `int`, which rounds toward zero. -/
def truncate (q : ℚ) : ℤ := q.num.tdiv q.den

/-- `_failed`. -/
def failed (message : String) (expected actual : Value) : AssertionResult :=
  .fail (.str "") "outcome" expected (some actual) message

section Errors

/-- `_observed_error`: an error as the target of `expect_error`. -/
def WireError.observed (error : WireError) : Fields :=
  [("message", .str error.message)] ++
    (error.errorType.map fun name => ("error_type", Value.str name.value)).toList ++
    (error.jsonrpcCode.map fun code => ("code", Value.int code)).toList ++
    [("details", .list error.details)]

/-- `_unnamed_error_hint`. -/
def WireError.unnamedHint (error : WireError) : Option String :=
  if error.errorType.isSome then none
  else if error.reason.getD "" ≠ "" then
    some ("ErrorInfo.reason " ++ Text.repr (error.reason.getD ""))
  else
    match error.jsonrpcCode with
    | some code => some s!"JSON-RPC code {code}"
    | none =>
        if error.status.getD "" ≠ "" then some ("gRPC status " ++ error.status.getD "")
        else none

/-- `_explain_unnamed`: say what the SUT returned where it named no error. -/
def explainUnnamed (py : Interpreter) (result : AssertionResult) (error : WireError) :
    AssertionResult :=
  match error.unnamedHint with
  | none => result
  | some hint =>
      { result with failures := result.failures.map fun failure =>
          if "error_type".toList.isSuffixOf (failure.path.text py).toList then
            { failure with message := failure.message ++ " — the SUT returned " ++ hint ++
                ", which is not an A2A error name" }
          else failure }

/-- `_name_of`. -/
def WireError.name (error : WireError) : String :=
  (error.errorType.map ErrorType.value).getD "an unnamed error"

end Errors

section Parsed

/-- The data of the first part that has some. -/
def dataPart? : List Value → Option Value
  | [] => none
  | part :: rest =>
      match part.get? (.str "data") with
      | some (.dict entries) => some (.dict entries)
      | _ => dataPart? rest

/-- The data of the first artifact with a part that has some. -/
def dataArtifact? : List Value → Except PyError (Option Value)
  | [] => pure none
  | artifact :: rest => do
      let parts ← (if artifact.truthy then artifact else .dict []).getOr "parts" .null
      let parts ← (orEmptyList parts).iterate
      match dataPart? parts with
      | some data => pure (some data)
      | none => dataArtifact? rest

/-- `_parsed_from`. -/
def parsedFrom (payload : Value) : Except PyError (Option Value) :=
  if !payload.isMapping then pure none
  else
    let task := (payload.get? (.str "task")).getD payload
    if !task.isMapping then pure none
    else do
      let artifacts ← (orEmptyList ((task.get? (.str "artifacts")).getD .null)).iterate
      dataArtifact? artifacts

end Parsed

/-- `_is_streaming`: decided by the operation, or by `expect_stream`. -/
def StepFields.streams (step : StepFields) : Bool :=
  step.expectStream.isSome || step.operation.any Operation.streaming

/-- `_stream_label`. -/
def streamLabel (index total : ℕ) : String :=
  if total = 1 then "" else s!"stream {index} of {total} "

/-- `_within_stream`: attribute a failure to the stream of a set that produced it. -/
def withinStream (py : Interpreter) (result : AssertionResult) (index : ℕ)
    (plan : Option StreamPlan) : AssertionResult :=
  let described := (plan.bind fun plan => plan.description).getD ""
  let named := if described.isEmpty then s!"stream {index}" else described
  { result with failures := result.failures.map fun failure =>
      { failure with
        path := .str (s!"streams[{index}]." ++ failure.path.text py)
        message := s!"{named}: {failure.message}" } }

namespace Runner

variable {σ : Type} (runner : Runner σ)

section Results

def elapsedMs (started : ℚ) : EStateM Exception σ ℤ := do
  let now ← runner.now
  pure (truncate ((now - started) * 1000))

/-- `_step`. -/
def stepResult (step : StepFields) (scope : Scope) (outcome : Outcome) (started : ℚ)
    (failure : Option FailureDetail) (attempts : ℕ := 1) (checks : ℕ := 0) :
    EStateM Exception σ (StepResult × Scope) := do
  let durationMs ← runner.elapsedMs started
  pure ({ id := step.id, result := outcome, durationMs, failure, attempts, checks }, scope)

/-- `_step` with a message. -/
def stepMessage (step : StepFields) (scope : Scope) (outcome : Outcome) (started : ℚ)
    (message : String) (attempts : ℕ := 1) : EStateM Exception σ (StepResult × Scope) :=
  runner.stepResult step scope outcome started
    (some { message, stepId := some step.id }) attempts

/-- `_evaluate_named`: the first named assertion that does not hold. -/
def evaluateAssertions (scope : Scope) (stepId : Option String) :
    List NamedAssertion → EStateM Exception σ (Option FailureDetail)
  | [] => pure none
  | assertion :: rest => do
      match ← Effects.attempt (runner.substitute scope (.str assertion.source)) with
      | .error (.unresolvedVariable message) => pure (some { message, stepId })
      | .error e => throw e
      | .ok source => do
          let resolved ← scope.resolvedAssertion runner.py runner.newUuid assertion
          let outcome ← Effects.lift (evaluateNamed runner.py resolved source)
          match outcome.failures with
          | failure :: _ => pure (some (.fromAssertion runner.py failure stepId))
          | [] => evaluateAssertions scope stepId rest

/-- `_finish`: the result of an evaluated step, with its assertions run last. -/
def finish (step : StepFields) (scope : Scope) (result : AssertionResult) (started : ℚ)
    (attempts : ℕ) : EStateM Exception σ (StepResult × Scope) :=
  match result.failures with
  | failure :: _ =>
      runner.stepResult step scope .fail started
        (some (.fromAssertion runner.py failure (some step.id))) attempts result.checks
  | [] => do
      match ← runner.evaluateAssertions scope (some step.id) (step.assertions.getD []) with
      | some named =>
          runner.stepResult step scope .fail started (some named) attempts result.checks
      | none => runner.stepResult step scope .pass started none attempts result.checks

/-- `_capture`: the scope after a step's `capture`, and what it missed. -/
def captureStep (step : StepFields) (scope : Scope) (response : Value) :
    EStateM Exception σ (Scope × Option String) :=
  match scope.capture step.id response (step.capture.getD []) with
  | (captured, .ok ()) => pure (captured, none)
  | (captured, .error (.unresolvedVariable message)) => pure (captured, some message)
  | (_, .error e) => throw e

end Results

section Webhook

/-- The deliveries for a task, read until there are enough or time is up. `fuel`
bounds the reads a clock that runs allows before the deadline. -/
def awaitDeliveries (read : String → EStateM Exception σ (List Value)) (taskId : String)
    (minCount : ℕ) (deadline : ℚ) : ℕ → EStateM Exception σ (List Value)
  | 0 => read taskId
  | fuel + 1 => do
      let delivered ← read taskId
      if minCount ≤ delivered.length then pure delivered
      else do
        let now ← runner.now
        if deadline ≤ now then pure delivered
        else do
          runner.pause (1 / 4)
          awaitDeliveries read taskId minCount deadline fuel

/-- `dict(v)`: a mapping, or a list of pairs. -/
def asDict : Value → Except PyError Value
  | .dict entries => pure (.dict entries)
  | .list items => do
      let pairs ← items.mapM fun item => do
        match ← item.iterate with
        | [.scalar key, v] => pure (key, v)
        | [_, _] => throw PyError.typeError
        | _ => throw (.valueError "dictionary update sequence element")
      pure (.dict (Dict.ofList pairs).entries)
  | .scalar (.str _) => throw (.valueError "dictionary update sequence element")
  | .scalar _ => throw .typeError

/-- `dict(n.get("event") or \x7b\x7d)`. -/
def deliveredEvent (notification : Value) : Except PyError Value := do
  let event ← notification.getOr "event" .null
  asDict (if event.truthy then event else .dict [])

/-- A check of one part of a webhook block, on a target and its position. -/
abbrev DeliveryCheck (σ : Type) := Value → ℕ → EStateM Exception σ AssertionResult

/-- The check of `each_event` and `final_event`. -/
def checkEvent (scope : Scope) (tree : Fields) (name : String) : DeliveryCheck σ :=
  fun event index => do
    let tree ← runner.substituteFields scope tree
    Effects.lift (evaluateBody runner.py tree event s!"webhook.{name}[{index}]")

/-- The check of `headers`. -/
def checkHeaders (scope : Scope) (tree : Fields) : DeliveryCheck σ :=
  fun notification index => do
    let tree ← runner.substituteFields scope tree
    let headers ← Effects.lift (builtin (notification.getOr "headers" .null))
    Effects.lift (evaluateHeaders runner.py tree headers s!"webhook.headers[{index}]")

/-- The check of `token`. -/
def checkToken (scope : Scope) (tree : Value) : DeliveryCheck σ :=
  fun notification index => do
    let tree ← runner.substitute scope tree
    let token ← Effects.lift (builtin (notification.getOr "token" .null))
    Effects.lift (evaluateBody runner.py [("token", tree)] (.object [("token", token)])
      s!"webhook.token[{index}]")

/-- The parts of a webhook block, each with what it is checked on. -/
def webhookParts (block : ExpectWebhook) (scope : Scope) (events delivered : List Value) :
    List (DeliveryCheck σ × List Value) :=
  (block.eachEvent.map fun tree =>
    (runner.checkEvent scope tree "each_event", events)).toList ++
  (block.finalEvent.map fun tree =>
    (runner.checkEvent scope tree "final_event", events.getLast?.toList)).toList ++
  (block.headers.map fun tree => (runner.checkHeaders scope tree, delivered)).toList ++
  (if block.token.isNull then [] else [(runner.checkToken scope block.token, delivered)])

/-- One part of a webhook block on every target, up to the first failure. -/
def checkTargets (check : DeliveryCheck σ) :
    List (Value × ℕ) → (checks : ℕ) → EStateM Exception σ (ℕ × Option Failure)
  | [], checks => pure (checks, none)
  | (target, index) :: rest, checks => do
      let result ← check target index
      match result.failures with
      | failure :: _ => pure (checks + result.checks, some failure)
      | [] => checkTargets check rest (checks + result.checks)

/-- The parts of a webhook block in order, up to the first failure. -/
def checkParts : List (DeliveryCheck σ × List Value) → (checks : ℕ) →
    EStateM Exception σ (ℕ × Option Failure)
  | [], checks => pure (checks, none)
  | (check, targets) :: rest, checks => do
      match ← checkTargets check targets.zipIdx checks with
      | (checks, some failure) => pure (checks, some failure)
      | (checks, none) => checkParts rest checks

/-- What the deliveries come to, once there are enough. -/
def judgeDeliveries (step : StepFields) (block : ExpectWebhook) (scope : Scope) (started : ℚ)
    (delivered : List Value) : EStateM Exception σ (StepResult × Scope) := do
  let events ← Effects.lift (builtin (delivered.mapM deliveredEvent))
  let scope := scope.recordResponse step.id (events.getLast?.getD .null)
  match ← checkParts (runner.webhookParts block scope events delivered) 1 with
  | (checks, some failure) =>
      runner.stepResult step scope .fail started
        (some (.fromAssertion runner.py failure (some step.id))) 1 checks
  | (checks, none) =>
      match ← runner.evaluateAssertions scope (some step.id) (step.assertions.getD []) with
      | some named => runner.stepResult step scope .fail started (some named) 1 checks
      | none => runner.stepResult step scope .pass started none 1 checks

/-- `_run_webhook_step`. -/
def runWebhookStep (step : StepFields) (block : ExpectWebhook) (scope : Scope) (started : ℚ) :
    EStateM Exception σ (StepResult × Scope) :=
  match runner.readWebhook with
  | none => runner.stepMessage step scope .error started
      (s!"{step.id} reads delivered notifications but no webhook receiver is wired; this " ++
        "runner offers `webhook_endpoint` without one, so the gate that should have " ++
        "skipped the test passed it through")
  | some read => do
      match ← Effects.attempt (runner.substitute scope (.str block.taskId)) with
      | .error e =>
          if e.isUnresolvedOrPath then
            runner.stepMessage step scope .error started e.message
          else throw e
      | .ok task => do
          let taskId := task.text runner.py
          let now ← runner.now
          let delivered ← runner.awaitDeliveries read taskId block.minCount
            (now + block.timeoutMs / 1000) (block.timeoutMs / 250 + 1)
          if delivered.length < block.minCount then
            runner.stepResult step scope .fail started
              (some
                { message := s!"the SUT delivered {delivered.length} notification(s) for " ++
                    s!"task {taskId} in {block.timeoutMs}ms; the test needs {block.minCount}"
                  stepId := some step.id
                  expected := some (.int block.minCount)
                  actual := some (.int delivered.length)
                  assertionPath := some (.str "webhook.min_count") }) 1 1
          else runner.judgeDeliveries step block scope started delivered

end Webhook

section Client

/-- The behaviour a `client_response` step is delivered through. -/
def clientParseBehavior : String := "tck-client-parse"

/-- The message that hands a payload to the SUT's own client. -/
def clientParams (messageId : String) (block : ClientResponseBlock) (wirePayload : Value) :
    Fields :=
  [("message", .object
    [("role", .str "ROLE_USER"), ("messageId", .str messageId),
      ("parts", .list
        [.object [("text", .str clientParseBehavior)],
          .object [("data", .object
            [("operation", .str block.operation.value), ("wire_payload", wirePayload)])]])])]

/-- `_run_client_step`. -/
def runClientStep (step : StepFields) (block : ClientResponseBlock) (scope : Scope)
    (started : ℚ) : EStateM Exception σ (StepResult × Scope) := do
  let messageId ← Effects.update runner.newUuid
  let wirePayload ← runner.substitute scope block.wirePayload
  let response ← runner.dispatch .sendMessage (clientParams messageId block wirePayload)
    runner.headers
  match response.error with
  | some error =>
      runner.stepMessage step scope .fail started
        s!"the SUT could not parse the payload: {error.name}: {error.message}"
  | none => do
      match ← Effects.lift (builtin (parsedFrom response.payload)) with
      | none =>
          runner.stepMessage step scope .fail started
            ("the SUT returned no parsed payload; it may not implement " ++ clientParseBehavior)
      | some parsed => do
          let scope := scope.recordResponse step.id parsed
          let tree ← runner.substituteFields scope (step.expectParsed.getD [])
          let result ← Effects.lift (evaluateBody runner.py tree parsed "parsed")
          runner.finish step scope result started 1

end Client

section Unary

/-- `_evaluate_outcome` of the `expect_error` part. -/
def evaluateExpectedError (expected : ExpectError) (error : WireError) (scope : Scope) :
    EStateM Exception σ AssertionResult := do
  let resolved ← scope.resolvedError runner.py runner.newUuid expected
  let result ← Effects.lift (evaluateError runner.py resolved error.observed)
  pure (explainUnnamed runner.py result error)

/-- The status and headers of an `expect` block. -/
def evaluateStatusAndHeaders (block : ExpectBlock) (response : WireResponse) (scope : Scope) :
    EStateM Exception σ AssertionResult := do
  let status ←
    if block.status.isNull then pure .pass
    else do
      let tree ← runner.substitute scope block.status
      Effects.lift (evaluateStatus runner.py tree (.int response.status))
  let headers ← match block.headers with
    | none => pure .pass
    | some tree => do
        let tree ← runner.substituteFields scope tree
        Effects.lift (evaluateHeaders runner.py tree
          (.object (response.headers.map fun header => (header.1, .str header.2))) "headers")
  pure (status + headers)

/-- The `expect` part, where a success body and an error exclude each other on an
operation step. -/
def evaluateExpected (step : StepFields) (block : ExpectBlock) (response : WireResponse)
    (scope : Scope) : EStateM Exception σ (AssertionResult ⊕ AssertionResult) := do
  let outer ← runner.evaluateStatusAndHeaders block response scope
  match block.body with
  | none => pure (.inr outer)
  | some body =>
      match response.error with
      | some error =>
          if step.kind = .raw then do
            let tree ← runner.substituteFields scope body
            let inner ← Effects.lift (evaluateBody runner.py tree response.payload "body")
            pure (.inr (outer + inner))
          else pure (.inl (failed
            s!"expected a response body, got error {error.name}: {error.message}"
            (.str "a successful response") (.str error.name)))
      | none => do
          let tree ← runner.substituteFields scope body
          let inner ← Effects.lift (evaluateBody runner.py tree response.payload "body")
          pure (.inr (outer + inner))

/-- `_evaluate_outcome`. -/
def evaluateOutcome (step : StepFields) (response : WireResponse) (scope : Scope) :
    EStateM Exception σ AssertionResult :=
  match step.expectError, response.error with
  | some _, none => pure (failed "expected an error, but the call succeeded"
      (.str "an error") (.str s!"HTTP {response.status}"))
  | expectError, error => do
      let named ← match expectError, error with
        | some expected, some error => runner.evaluateExpectedError expected error scope
        | _, _ => pure .pass
      match step.expect with
      | none => pure named
      | some block => do
          match ← runner.evaluateExpected step block response scope with
          | .inl refused => pure refused
          | .inr result => pure (named + result)

/-- What a reply comes to. -/
def judgeReply (step : StepFields) (scope : Scope) (started : ℚ) (response : WireResponse)
    (attempts : ℕ) : EStateM Exception σ (StepResult × Scope) := do
  let scope := scope.recordResponse step.id response.payload
  match ← captureStep step scope response.payload with
  | (scope, some missed) => runner.stepMessage step scope .fail started missed attempts
  | (scope, none) => do
      let result ← runner.evaluateOutcome step response scope
      runner.finish step scope result started attempts

/-- `_run_unary_step` of a raw step. -/
def runRawStep (step : StepFields) (raw : RawBlock) (scope : Scope) (started : ℚ) :
    EStateM Exception σ (StepResult × Scope) := do
  match ← Effects.attempt (scope.resolvedRaw runner.py runner.newUuid raw) with
  | .error e =>
      if e.isUnresolvedOrPath then runner.stepMessage step scope .error started e.message
      else throw e
  | .ok raw => do
      let response ← runner.dispatchRaw raw rawHeaders
      runner.judgeReply step scope started response 1

/-- The params and the polling condition of an operation step. -/
def prepareOperation (step : StepFields) (operation : Operation) (scope : Scope) :
    EStateM Exception σ (Fields × Option (Repeat × Value)) := do
  let params ← runner.prepareParams operation (step.params.getD []) scope
  match step.repetition with
  | none => pure (params, none)
  | some block => do
      let expression ← runner.substitute scope (.str block.untilText)
      pure (params, some (block, expression))

/-- `_run_unary_step` of an operation step. -/
def runOperationStep (step : StepFields) (operation : Operation) (scope : Scope)
    (started : ℚ) : EStateM Exception σ (StepResult × Scope) := do
  match ← Effects.attempt (runner.prepareOperation step operation scope) with
  | .error e =>
      if e.isUnresolvedOrPath then runner.stepMessage step scope .error started e.message
      else throw e
  | .ok (params, poll) => do
      match ← Effects.attempt (runner.dispatchRepeatedly operation params poll) with
      | .error (.untilError message) => runner.stepMessage step scope .error started message
      | .error e => throw e
      | .ok (response, attempts, converged) =>
          if converged then runner.judgeReply step scope started response attempts
          else
            runner.stepMessage step scope .fail started
              (s!"polled {attempts} time(s) and `" ++
                (step.repetition.elim "" Repeat.untilText) ++ "` never became true") attempts

end Unary

end Runner

end A2aItk.Acts
