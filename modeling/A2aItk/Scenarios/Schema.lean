import A2aItk.Scenarios.Topology

/-!
# Scenario schemas

`scenarios/schema.py` and the resolved form of `scenarios/resolver.py`: the
role-based `traversal/v1` declaration, the legacy shape, and the executable
scenario both end up as.

## Implementation notes

An enumeration whose members are strings keeps its `value`. The validator of a
declaration is a field of it, so a declaration the loader rejects is not built.
-/

namespace A2aItk.Scenarios

open Python

/-- What stands for the peer in the name of a scenario. -/
def peerPlaceholder : String := "\x7bpeer\x7d"

/-- The SUT's identifier. -/
def sutId : String := "current"

/-- When a scenario is run. -/
inductive Tier
  | pr
  | nightly
  deriving DecidableEq

/-- The tier as scenario files spell it. -/
def Tier.value : Tier → String
  | pr => "pr"
  | nightly => "nightly"

/-- What the agents are asked to do. -/
inductive Behavior
  | sendMessage
  | pushNotification
  | resubscribe
  deriving DecidableEq

/-- The behavior as scenario files and the agents spell it. -/
def Behavior.value : Behavior → String
  | sendMessage => "send_message"
  | pushNotification => "push_notification"
  | resubscribe => "resubscribe"

/-- The transports an agent may speak. -/
inductive Transport
  | jsonrpc
  | grpc
  | httpJson
  deriving DecidableEq

/-- The transport as the matrix and the agents spell it. -/
def Transport.value : Transport → String
  | jsonrpc => "jsonrpc"
  | grpc => "grpc"
  | httpJson => "http_json"

/-- Declaration order, for places that need a stable sequence. -/
def transportOrder : List String :=
  [Transport.jsonrpc, Transport.grpc, Transport.httpJson].map Transport.value

/-- How a multi-peer role list becomes scenarios. -/
inductive Expand
  | together
  | perPeer
  deriving DecidableEq

/-- One peer, by SDK and version line; an `instance` is a copy with its number,
two or more. -/
structure PeerRef where
  sdk : String
  line : String
  copy : Option { n : Nat // 2 ≤ n }

/-- The identifier of a named peer, and of a further copy of it. -/
def PeerRef.agentId (peer : PeerRef) : String :=
  match peer.copy with
  | none => s!"{peer.sdk}_{peer.line}"
  | some n => s!"{peer.sdk}_{peer.line}_{n.val}"

/-- An explicit peer list, or every line that supports the transports. -/
inductive Peers
  | named (peers : List PeerRef)
  | all

/-- Who takes part beside the system under test. -/
structure Roles where
  peers : Peers
  includeSut : Bool := true
  includeOwnLines : Bool := false

/-- The fields of a role-based traversal scenario. -/
structure TraversalFields where
  name : String
  roles : Roles
  topology : Topology := .star
  tier : Tier := .nightly
  testWhen : Option (List String) := none
  expand : Expand := .together
  behavior : Option Behavior := none
  behaviors : Option (List Behavior) := none
  transports : Option (List Transport) := none
  transportSets : Option (List (List Transport)) := none
  streaming : Option Bool := none
  streamingVariants : Option (List Bool) := none
  edges : Option (List String) := none
  buildSubtests : Bool := false

namespace TraversalFields

/-- A field and its plural are not both given. -/
def notBoth (singular plural : String) (hasSingular hasPlural : Bool) : Except PyError Unit :=
  if hasSingular && hasPlural then
    throw (.valueError s!"set either `{singular}` or `{plural}`, not both")
  else pure ()

/-- A list that is given has an element. -/
def notEmpty {α : Type} (field : String) : Option (List α) → Except PyError Unit
  | some [] => throw (.valueError s!"`{field}` must not be empty")
  | _ => pure ()

/-- The validation of a declaration as a whole. Its checks are made in this order, so that the
first to fail gives the error. -/
def exactlyOneOfEachPair (d : TraversalFields) : Except PyError Unit := do
  notBoth "behavior" "behaviors" d.behavior.isSome d.behaviors.isSome
  notBoth "transports" "transport_sets" d.transports.isSome d.transportSets.isSome
  notBoth "streaming" "streaming_variants" d.streaming.isSome d.streamingVariants.isSome
  if d.behavior.isNone && d.behaviors.isNone then
    throw (.valueError "one of `behavior` or `behaviors` is required")
  if d.transports.isNone && d.transportSets.isNone then
    throw (.valueError "one of `transports` or `transport_sets` is required")
  notEmpty "behaviors" d.behaviors
  notEmpty "transport_sets" d.transportSets
  notEmpty "streaming_variants" d.streamingVariants
  notEmpty "transports" d.transports
  if (d.transportSets.getD []).any List.isEmpty then
    throw (.valueError "`transport_sets` entries must not be empty")

end TraversalFields

/-- A role-based traversal scenario the schema accepts. -/
structure TraversalScenarioV1 extends TraversalFields where
  accepted : toTraversalFields.exactlyOneOfEachPair = .ok ()

namespace TraversalScenarioV1

variable (d : TraversalScenarioV1)

/-- The behaviors a declaration expands to. -/
def behaviorVariants : List Behavior :=
  match d.behaviors with
  | some behaviors => behaviors
  | none => d.behavior.toList

/-- One entry per scenario to emit: `transports` splits. -/
def transportVariants : List (List Transport) :=
  match d.transportSets with
  | some sets => sets
  | none => (d.transports.getD []).map fun t => [t]

/-- The values of streaming a declaration expands to. -/
def streamingOptions : List Bool :=
  match d.streamingVariants with
  | some variants => variants
  | none => [d.streaming.getD false]

end TraversalScenarioV1

/-- The shape every SDK's `scenarios.json` uses. -/
structure LegacyScenario where
  name : String
  sdks : List String
  behavior : String
  edges : Option (List String) := none
  protocols : Option (List String) := none
  streaming : Bool := false
  buildSubtests : Bool := false

/-- One executable scenario. `topology` is the shape to rebuild from, or `none`
where the edges are an author's own. -/
structure ResolvedScenario where
  name : String
  sdks : List String
  behavior : String
  edges : Option (List String) := none
  protocols : Option (List String) := none
  streaming : Bool := false
  buildSubtests : Bool := false
  tier : String := Tier.nightly.value
  topology : Option Topology := none
  deriving DecidableEq

end A2aItk.Scenarios
