import A2aItk.Acts.Wire

/-!
# The document schema

The models a loaded test is made of, and the conditions their validators check.
Assertion trees stay plain data.

## Implementation notes

The fields of a step and of a test come in a record of their own; `Step` and
`Test` add the proof that the validators accept them. A field that holds one
assertion is `null` where the document leaves it out. Descriptions, tags and
provenance that no modelled function reads are left out; a named assertion keeps its
description, which is substituted with the rest.
-/

namespace A2aItk.Acts

open Python

/-- RFC 2119 conformance level. -/
inductive Level
  | must
  | should
  | may
  deriving DecidableEq

/-- Which wire binding a test is restricted to. -/
inductive TransportBinding
  | jsonrpc
  | grpc
  | rest
  deriving DecidableEq

namespace TransportBinding

def value : TransportBinding → String
  | jsonrpc => "jsonrpc"
  | grpc => "grpc"
  | rest => "rest"

end TransportBinding

/-- Abstract, transport-agnostic operation. -/
inductive Operation
  | sendMessage
  | sendStreamingMessage
  | getTask
  | listTasks
  | cancelTask
  | subscribeToTask
  | getAgentCard
  | getExtendedAgentCard
  | createPushConfig
  | getPushConfig
  | listPushConfigs
  | deletePushConfig
  deriving DecidableEq

namespace Operation

def value : Operation → String
  | sendMessage => "send_message"
  | sendStreamingMessage => "send_streaming_message"
  | getTask => "get_task"
  | listTasks => "list_tasks"
  | cancelTask => "cancel_task"
  | subscribeToTask => "subscribe_to_task"
  | getAgentCard => "get_agent_card"
  | getExtendedAgentCard => "get_extended_agent_card"
  | createPushConfig => "create_push_config"
  | getPushConfig => "get_push_config"
  | listPushConfigs => "list_push_configs"
  | deletePushConfig => "delete_push_config"

end Operation

/-- A capability the runner must have, beyond speaking the protocol. -/
inductive RunnerRequirement
  | webhookEndpoint
  | concurrentStreams
  | streamDisconnect
  | authCredentials
  | headerInspection
  deriving DecidableEq

namespace RunnerRequirement

def value : RunnerRequirement → String
  | webhookEndpoint => "webhook_endpoint"
  | concurrentStreams => "concurrent_streams"
  | streamDisconnect => "stream_disconnect"
  | authCredentials => "auth_credentials"
  | headerInspection => "header_inspection"

end RunnerRequirement

inductive HttpMethod
  | get
  | post
  | put
  | delete
  deriving DecidableEq

/-- Ordering constraint over a stream's events. -/
inductive Ordering
  | monotonicState
  deriving DecidableEq

/-- Delay growth between polling attempts. -/
inductive Backoff
  | none
  | linear
  | exponential
  deriving DecidableEq

/-- Whether a streamed-event assertion is positional. -/
inductive EventMatch
  | exactPosition
  | anyPosition
  deriving DecidableEq

/-- A mapping with text keys, in document order. -/
abbrev Fields := List (String × Value)

/-- What the SUT must advertise for a test to be applicable. -/
structure Preconditions where
  capabilities : Option Fields := none
  authentication : Option Bool := none
  skills : Option (List Fields) := none
  transport : Option (List TransportBinding) := none
  extensions : Option (List String) := none

/-- A wildcard path plus the assertions each matched element must satisfy. -/
structure CollectionMatch where
  path : String
  pattern : Fields

/-- The checks of a named or inline assertion that are given. -/
def givenChecks (pattern : Value) (quantified : List (Option CollectionMatch)) : ℕ :=
  (if pattern.isNull then 0 else 1) + (quantified.filter Option.isSome).length

/-- An assertion evaluated against a captured value. -/
structure NamedAssertion where
  id : Option String := none
  description : Option String := none
  source : String
  path : Option String := none
  pattern : Value := .null
  any : Option CollectionMatch := none
  all : Option CollectionMatch := none
  noneOf : Option CollectionMatch := none
  needsExactlyOneCheck : givenChecks pattern [any, all, noneOf] = 1

/-- The body of a standalone `assertion` step. -/
structure InlineAssertion where
  source : String
  any : Option CollectionMatch := none
  all : Option CollectionMatch := none
  noneOf : Option CollectionMatch := none
  needsExactlyOneCheck : givenChecks .null [any, all, noneOf] = 1

/-- A hand-built HTTP request. -/
structure RawBlock where
  method : HttpMethod
  path : String
  headers : Option (List (String × String)) := none
  body : Value := .null
  bodyRaw : Option String := none
  bodyOrBodyRaw : body.isNull ∨ bodyRaw = none

/-- A canned wire payload fed to the SDK's own client. -/
structure ClientResponseBlock where
  operation : Operation
  wirePayload : Value

/-- Re-dispatch the step until `until` holds. -/
structure Repeat where
  untilText : String
  maxAttempts : Option ℕ := none
  delayMs : Option ℕ := none
  backoff : Option Backoff := none
  untilNonempty : untilText ≠ ""
  maxAttemptsPositive : ∀ n ∈ maxAttempts, 1 ≤ n

/-- Assertions on a non-streaming response. -/
structure ExpectBlock where
  status : Value := .null
  headers : Option Fields := none
  body : Option Fields := none

/-- Assert the operation failed, and optionally how. -/
structure ExpectError where
  errorType : Value := .null
  message : Value := .null
  details : Value := .null
  knownErrorName : ∀ name ∈ errorType.text?, name ∈ ErrorType.names

/-- An expectation that names no error names none that is unknown. -/
theorem knownErrorName_null : ∀ name ∈ Value.null.text?, name ∈ ErrorType.names := by
  simp [Value.text?]

/-- One expected event within a stream. The extra keys are its assertion. -/
structure EventAssertion where
  description : Option String := none
  position : Option EventMatch := none
  index : Option ℕ := none
  extras : Fields := []

/-- What may be asserted about the events of one stream. -/
structure StreamAssertions where
  minCount : Option ℕ := none
  maxCount : Option ℕ := none
  timeoutMs : Option ℕ := none
  ordering : Option Ordering := none
  events : Option (List EventAssertion) := none
  finalEvent : Option Fields := none
  eachEvent : Option Fields := none
  countsAreConsistent : ∀ low ∈ minCount, ∀ high ∈ maxCount, low ≤ high

/-- One stream of a concurrent set. -/
structure StreamPlan extends StreamAssertions where
  description : Option String := none
  disconnectAfter : Option ℕ := none
  disconnectPositive : ∀ n ∈ disconnectAfter, 1 ≤ n
  noTimeout : timeoutMs = none
  cutFreesNothing : ∀ n ∈ disconnectAfter, maxCount = none ∧ ∀ low ∈ minCount, low ≤ n

/-- Assertions over a stream of events. -/
structure ExpectStream extends StreamAssertions where
  streams : Option (List StreamPlan) := none
  streamsNonempty : ∀ plans ∈ streams, plans ≠ []

/-- Assertions over what the SUT pushed to the runner's webhook. -/
structure ExpectWebhook where
  taskId : String
  minCount : ℕ := 1
  timeoutMs : ℕ := 10000
  eachEvent : Option Fields := none
  finalEvent : Option Fields := none
  headers : Option Fields := none
  token : Value := .null
  minCountPositive : 1 ≤ minCount

/-- Which of the five step forms a step is. -/
inductive StepKind
  | operation
  | raw
  | client
  | webhook
  | assertion
  deriving DecidableEq

namespace StepKind

def value : StepKind → String
  | operation => "operation"
  | raw => "raw"
  | client => "client"
  | webhook => "webhook"
  | assertion => "assertion"

end StepKind

/-- What a step declares. -/
structure StepFields where
  id : String
  operation : Option Operation := none
  raw : Option RawBlock := none
  clientResponse : Option ClientResponseBlock := none
  expectWebhook : Option ExpectWebhook := none
  assertion : Option InlineAssertion := none
  params : Option Fields := none
  expect : Option ExpectBlock := none
  expectError : Option ExpectError := none
  expectStream : Option ExpectStream := none
  expectParsed : Option Fields := none
  capture : Option (List (String × String)) := none
  assertions : Option (List NamedAssertion) := none
  repetition : Option Repeat := none
  delayMs : Option ℕ := none

namespace StepFields

variable (step : StepFields)

/-- Which form the step takes. -/
def kind : StepKind :=
  if step.operation.isSome then .operation
  else if step.raw.isSome then .raw
  else if step.clientResponse.isSome then .client
  else if step.expectWebhook.isSome then .webhook
  else .assertion

/-- The kinds that are given. -/
def kindsGiven : List Bool :=
  [step.operation.isSome, step.raw.isSome, step.clientResponse.isSome, step.expectWebhook.isSome,
    step.assertion.isSome]

/-- The entries of `expect_stream.streams`. -/
def plans : List StreamPlan := (step.expectStream.bind fun block => block.streams).getD []

/-- Whether the step declares anything only a step that talks to the SUT may. -/
def repliesGiven : Bool :=
  step.expect.isSome || step.expectError.isSome || step.expectStream.isSome ||
    step.capture.isSome || step.repetition.isSome

/-- `_fields_match_the_kind`. -/
structure FieldsMatchTheKind : Prop where
  params : step.kind ≠ .operation → step.params = none
  parsed : step.kind ≠ .client → step.expectParsed = none
  clientParsed : step.kind = .client → step.expectParsed ≠ none
  replies : step.kind ∈ [StepKind.client, .webhook, .assertion] → step.repliesGiven = false
  bodyOrError : ∀ block ∈ step.expect, block.body = none ∨ step.expectError = none
  errorOrStream : step.expectError = none ∨ step.expectStream = none
  captureOne : step.capture.getD [] = [] ∨ step.plans.length ≤ 1
  repetition : step.kind ≠ .operation → step.repetition = none

end StepFields

/-- One step of a test, as the validators accept it. -/
structure Step extends StepFields where
  idNonempty : id ≠ ""
  exactlyOneKind : toStepFields.kindsGiven.count true = 1
  fieldsMatchTheKind : toStepFields.FieldsMatchTheKind

/-- What a test declares. -/
structure TestFields where
  id : String
  name : String
  level : Level
  transport : Option (List TransportBinding) := none
  preconditions : Option Preconditions := none
  requiresBehaviors : Option (List String) := none
  runnerRequirements : Option (List RunnerRequirement) := none
  steps : List Step
  assertions : Option (List NamedAssertion) := none

namespace TestFields

variable (test : TestFields)

/-- The runner features a step of the test uses. -/
def Uses : RunnerRequirement → Step → Prop
  | .webhookEndpoint, step => step.kind = .webhook
  | .concurrentStreams, step => 1 < step.plans.length
  | .streamDisconnect, step => ∃ plan ∈ step.plans, plan.disconnectAfter ≠ none
  | _, _ => False

/-- `applies_to`: an unrestricted test runs against every binding. -/
def appliesTo (binding : TransportBinding) : Bool :=
  (test.transport.getD []).isEmpty || decide (binding ∈ test.transport.getD [])

/-- The `tck-*` prefixes the test needs from the SUT. -/
def behaviors : List String := (test.requiresBehaviors.getD []).dedup

end TestFields

/-- One conformance test, as the validators accept it. -/
structure Test extends TestFields where
  idNonempty : id ≠ ""
  stepsNonempty : steps ≠ []
  stepIdsAreUnique : (steps.map fun step => step.id).Nodup
  rawOnlyNamesTransport :
    transport.getD [] = [] → ∃ step ∈ steps, step.kind ≠ .raw
  declaresRunnerFeatures :
    ∀ step ∈ steps, ∀ requirement, TestFields.Uses requirement step →
      requirement ∈ runnerRequirements.getD []

end A2aItk.Acts
