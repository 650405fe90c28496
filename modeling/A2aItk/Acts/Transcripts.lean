import A2aItk.Acts.TestRuns

/-!
# Transcripts

What the exchange of a step came to, the verification blocks a step declares, and when
such a block holds of a transcript.

## Implementation notes

A stream that opened leaves its events and its status, beside the time the runner gave
it. One that was refused may carry the reply of the SUT. A check succeeds where it can be
run and finds nothing wrong. That a stream completes in time is said of the bound the
block declares, not of the one it was read by.
-/

namespace A2aItk.Acts

open Python

/-- What the exchange of a step comes to. -/
inductive Transcript
  | reply (response : WireResponse)
  | streams (deadline : ℕ) (collected : List Runner.Collected)
  | refused (e : Exception)
  | deliveries (delivered : List Value)

namespace Transcript

/-- What reading the streams of a step up to a deadline comes to. -/
def ofGathered (deadline : ℕ) : Except Exception (List Runner.Collected) → Transcript
  | .error e => .refused e
  | .ok collected => .streams deadline collected

/-- The reply of the SUT. A refused stream may come with one. -/
def response? : Transcript → Option WireResponse
  | .reply response | .refused (.streamNotOpened _ response) => some response
  | _ => none

/-- The statuses the SUT answered with: one for each stream. -/
def statuses : Transcript → List (Option ℤ)
  | .streams _ collected => collected.map Runner.Collected.status
  | transcript => [transcript.response?.map WireResponse.status]

/-- The response `capture` reads: the events of the first stream, or the reply. -/
def captured? : Transcript → Option Value
  | .streams _ collected => some (.list ((collected.head?.elim [] Runner.Collected.events).map
      StreamedEvent.payload))
  | transcript => transcript.response?.map WireResponse.payload

/-- The error of the SUT, as `expect_error` reads it. -/
def observed? : Transcript → Option Fields
  | .reply response => response.error.map WireError.observed
  | .refused e => (Runner.refusedError e).map Prod.fst
  | _ => none

end Transcript

/-- A verification block of a step. -/
inductive Block
  | status
  | headers
  | body
  | error
  | stream
  | parsed
  | webhook
  | assertions
  | capture

namespace StepFields

variable (step : StepFields)

/-- The step declares the block. -/
def Declares : Block → Prop
  | .status => ∃ expect ∈ step.expect, expect.status.isNull = false
  | .headers => ∃ expect ∈ step.expect, expect.headers ≠ none
  | .body => ∃ expect ∈ step.expect, expect.body ≠ none
  | .error => step.expectError ≠ none
  | .stream => step.expectStream ≠ none
  | .parsed => step.expectParsed ≠ none
  | .webhook => step.expectWebhook ≠ none
  | .assertions => step.assertions ≠ none
  | .capture => step.capture ≠ none

/-- The other step says something else, or the same, in this block, and is otherwise
the step. A stream block bounds its streams by zero only where the step's own does. -/
def Varies (other : StepFields) : Block → Prop
  | .status => ∃ expect ∈ step.expect, ∃ tree : Value, tree.isNull = false ∧
      other = { step with expect := some { expect with status := tree } }
  | .headers => ∃ expect ∈ step.expect, ∃ trees : Fields,
      other = { step with expect := some { expect with headers := some trees } }
  | .body => ∃ expect ∈ step.expect, ∃ trees : Fields,
      other = { step with expect := some { expect with body := some trees } }
  | .error => ∃ expected, other = { step with expectError := some expected }
  | .stream => ∃ given ∈ step.expectStream, ∃ block : ExpectStream,
      (block.timeoutMs = some 0 ↔ given.timeoutMs = some 0) ∧
      other = { step with expectStream := some block }
  | .parsed => ∃ trees, other = { step with expectParsed := some trees }
  | .webhook => ∃ block, other = { step with expectWebhook := some block }
  | .assertions => ∃ assertions, other = { step with assertions := some assertions }
  | .capture => ∃ paths, other = { step with capture := some paths }

end StepFields

/-- The check finds nothing wrong. -/
def Clean (check : Except Exception AssertionResult) : Prop :=
  ∃ result, check = .ok result ∧ result.failures = []

/-- The check can be run, and finds nothing wrong. -/
def Succeeds {σ : Type} (check : EStateM Exception σ AssertionResult) : Prop :=
  ∃ s result t, check s = .ok result t ∧ result.failures = []

namespace Runner

variable {σ : Type} (runner : Runner σ)

section Checks

variable (scope : Scope)

/-- The check of a status, its tree substituted first. -/
def statusCheck (tree : Value) (code : ℤ) : EStateM Exception σ AssertionResult := do
  let tree ← runner.substitute scope tree
  Effects.lift (evaluateStatus runner.py tree (.int code))

/-- The check of the headers of a response. -/
def headersCheck (trees : Fields) (response : WireResponse) :
    EStateM Exception σ AssertionResult := do
  let trees ← runner.substituteFields scope trees
  Effects.lift (evaluateHeaders runner.py trees
    (.object (response.headers.map fun header => (header.1, .str header.2))) "headers")

/-- The check of a mapping of assertions: `expect.body` and `expect_parsed`. -/
def bodyCheck (trees : Fields) (payload : Value) (path : String) :
    EStateM Exception σ AssertionResult := do
  let trees ← runner.substituteFields scope trees
  Effects.lift (evaluateBody runner.py trees payload path)

/-- The check of an error against the one that is expected. -/
def errorCheck (expected : ExpectError) (observed : Fields) :
    EStateM Exception σ AssertionResult := do
  let resolved ← scope.resolvedError runner.py runner.newUuid expected
  Effects.lift (evaluateError runner.py resolved observed)

/-- The check of a named assertion, on the source it names. -/
def namedCheck (assertion : NamedAssertion) : EStateM Exception σ AssertionResult := do
  let source ← runner.substitute scope (.str assertion.source)
  let resolved ← scope.resolvedAssertion runner.py runner.newUuid assertion
  Effects.lift (evaluateNamed runner.py resolved source)

/-- The check of the headers a notification was delivered with. -/
def deliveredHeadersCheck (trees : Fields) (notification : Value) (index : ℕ) :
    EStateM Exception σ AssertionResult := do
  let trees ← runner.substituteFields scope trees
  let headers ← Effects.lift (builtin (notification.getOr "headers" .null))
  Effects.lift (evaluateHeaders runner.py trees headers s!"webhook.headers[{index}]")

/-- The check of the token a notification was delivered with. -/
def deliveredTokenCheck (tree : Value) (notification : Value) (index : ℕ) :
    EStateM Exception σ AssertionResult := do
  let tree ← runner.substitute scope tree
  let token ← Effects.lift (builtin (notification.getOr "token" .null))
  Effects.lift (evaluateBody runner.py [("token", tree)] (.object [("token", token)])
    s!"webhook.token[{index}]")

end Checks

/-- The events of the stream meet what is asserted of every stream, and what its plan
adds. -/
structure StreamHolds (block : ExpectStream) (plan : Option StreamPlan) (one : Collected) :
    Prop where
  shared : Clean (evaluateStream runner.py block.toStreamAssertions one.events false)
  own : ∀ p ∈ plan, Clean (evaluateStream runner.py p.toStreamAssertions one.events false)

/-- There are enough deliveries, and each part the block declares holds of them: of every
event, of the last one, and of the headers and the token of every notification. -/
structure DeliveriesHold (block : ExpectWebhook) (scope : Scope)
    (events delivered : List Value) : Prop where
  enough : block.minCount ≤ delivered.length
  eachEvent : ∀ trees ∈ block.eachEvent, ∀ (i : ℕ) event, events[i]? = some event →
    Succeeds (runner.bodyCheck scope trees event s!"webhook.each_event[{i}]")
  finalEvent : ∀ trees ∈ block.finalEvent, ∃ event ∈ events.getLast?,
    Succeeds (runner.bodyCheck scope trees event "webhook.final_event[0]")
  headers : ∀ trees ∈ block.headers, ∀ (i : ℕ) notification, delivered[i]? = some notification →
    Succeeds (runner.deliveredHeadersCheck scope trees notification i)
  token : block.token.isNull = false → ∀ (i : ℕ) notification, delivered[i]? = some notification →
    Succeeds (runner.deliveredTokenCheck scope block.token notification i)

/-- The block of the step holds of the transcript. -/
def Holds (step : StepFields) (scope : Scope) (transcript : Transcript) : Block → Prop
  | .status => ∀ expect ∈ step.expect, ∀ status ∈ transcript.statuses, ∃ code ∈ status,
      Succeeds (runner.statusCheck scope expect.status code)
  | .headers => ∀ expect ∈ step.expect, ∀ trees ∈ expect.headers,
      ∃ response ∈ transcript.response?, Succeeds (runner.headersCheck scope trees response)
  | .body => ∀ expect ∈ step.expect, ∀ trees ∈ expect.body, ∃ response ∈ transcript.response?,
      Succeeds (runner.bodyCheck scope trees response.payload "body")
  | .error => ∀ expected ∈ step.expectError, ∃ observed ∈ transcript.observed?,
      Succeeds (runner.errorCheck scope expected observed)
  | .stream => ∀ block ∈ step.expectStream, ∃ deadline collected,
      transcript = .streams deadline collected ∧
      List.Forall₂ (runner.StreamHolds block) (streamPlans step) collected ∧
      ∀ ms ∈ block.timeoutMs, deadline ≤ ms ∧ ∀ one ∈ collected, one.timedOut = false
  | .parsed => ∀ trees ∈ step.expectParsed, ∃ response, transcript = .reply response ∧
      response.error = none ∧ ∃ parsed, parsedFrom response.payload = .ok (some parsed) ∧
        Succeeds (runner.bodyCheck scope trees parsed "parsed")
  | .webhook => ∀ block ∈ step.expectWebhook, ∃ delivered events,
      transcript = .deliveries delivered ∧ delivered.mapM deliveredEvent = .ok events ∧
        runner.DeliveriesHold block scope events delivered
  | .assertions => ∀ assertion ∈ step.assertions.getD [],
      Succeeds (runner.namedCheck scope assertion)
  | .capture => ∀ entry ∈ step.capture.getD [], ∃ response ∈ transcript.captured?,
      ∃ value, readPath response entry.2 = .ok (some value)

section Exchange

/-- What a raw step gets to see. -/
def rawExchange (raw : RawBlock) (scope : Scope) : EStateM Exception σ Transcript := do
  let raw ← scope.resolvedRaw runner.py runner.newUuid raw
  let response ← runner.dispatchRaw raw rawHeaders
  pure (.reply response)

/-- What a step gets to see that calls an operation: the last reply of its polling. -/
def operationExchange (step : StepFields) (operation : Operation) (scope : Scope) :
    EStateM Exception σ Transcript := do
  let (params, poll) ← runner.prepareOperation step operation scope
  let (response, _, _) ← runner.dispatchRepeatedly operation params poll
  pure (.reply response)

/-- What a step gets to see that sends a client's message. -/
def clientExchange (block : ClientResponseBlock) (scope : Scope) :
    EStateM Exception σ Transcript := do
  let messageId ← Effects.update runner.newUuid
  let wirePayload ← runner.substitute scope block.wirePayload
  let response ← runner.dispatch .sendMessage (clientParams messageId block wirePayload)
    runner.headers
  pure (.reply response)

/-- What a step gets to see that waits for deliveries. -/
def webhookExchange (block : ExpectWebhook) (read : String → EStateM Exception σ (List Value))
    (scope : Scope) : EStateM Exception σ Transcript := do
  let task ← runner.substitute scope (.str block.taskId)
  let now ← runner.now
  let delivered ← runner.awaitDeliveries read (task.text runner.py) block.minCount
    (now + block.timeoutMs / 1000) (block.timeoutMs / 250 + 1)
  pure (.deliveries delivered)

/-- What a step gets to see that opens streams, up to its deadline. -/
def streamExchange (step : StepFields) (scope : Scope) : EStateM Exception σ Transcript := do
  let request ← runner.streamRequest step scope
  let deadline := (declaredTimeout step.expectStream).getD runner.streamTimeoutMs
  let scripts ← Effects.update (runner.openStreams request (streamPlans step).length deadline)
  pure (.ofGathered deadline (gathered step scripts))

/-- The exchange of a step that is answered with one reply. -/
def unaryExchange (step : StepFields) (scope : Scope) : EStateM Exception σ Transcript :=
  match step.kind, step.raw, step.operation with
  | .raw, some raw, _ => runner.rawExchange raw scope
  | _, _, some operation => runner.operationExchange step operation scope
  | _, _, none => throw (.builtin (.keyError "None"))

/-- The exchange of a step by its kind. -/
def exchangeKind (step : StepFields) (scope : Scope) : EStateM Exception σ Transcript :=
  match step.kind with
  | .client =>
      match step.clientResponse with
      | some block => runner.clientExchange block scope
      | none => throw (.builtin .attributeError)
  | .webhook =>
      match step.expectWebhook, runner.readWebhook with
      | some block, some read => runner.webhookExchange block read scope
      | _, _ => throw (.builtin .attributeError)
  | _ =>
      if step.streams then runner.streamExchange step scope
      else runner.unaryExchange step scope

/-- What a step sends and what comes back, without a verdict. -/
def exchange (step : StepFields) (scope : Scope) : EStateM Exception σ Transcript := do
  let _ ← runner.beginStep step
  runner.exchangeKind step scope

end Exchange

/-- The streams of the step are read by the bound it declares. One of zero counts as none. -/
def KeepsBound (step : StepFields) : Prop :=
  ∀ block ∈ step.expectStream, block.timeoutMs = some 0 → runner.streamTimeoutMs = 0

/-- The block counts: whatever it says, the step passes only where it holds of the
transcript of that run. -/
def Counts (step : StepFields) (scope : Scope) (s : σ) (block : Block) : Prop :=
  ∀ other : Step, step.Varies other.toStepFields block → ∀ transcript u r t,
    runner.exchange other.toStepFields scope s = .ok transcript u →
    runner.runStep other.toStepFields scope s = .ok r t → r.1.result = .pass →
    runner.Holds other.toStepFields r.2 transcript block

end Runner

end A2aItk.Acts
