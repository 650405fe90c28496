import A2aItk.Acts.Results
import A2aItk.Python.Objects
import A2aItk.Scenarios.Matrix

/-!
# Gating

Why a test should not run at all: the branches that skip it, and the reason each
one gives.

## Implementation notes

A branch keeps the parts its reason is put together from. A capability the
specification does not define has a branch of its own, so every other capability
branch carries a known name.
-/

namespace A2aItk.Acts

open Python Scenarios

/-- `KNOWN_CAPABILITIES`, the JSON names of the fields of `AgentCapabilities`. -/
def knownCapabilities : List String :=
  ["streaming", "pushNotifications", "extensions", "extendedAgentCard"]

abbrev KnownCapability := {name : String // name ∈ knownCapabilities}

/-- Marks a skip nobody can clear by configuring the SUT differently. -/
def unsatisfiable : String := "PRECONDITION CANNOT BE SATISFIED: "

/-- `str(b)`. -/
def showBool (b : Bool) : String := if b then "True" else "False"

/-- `", ".join(sorted(set))`. -/
def joinSorted (names : List String) : String := ", ".intercalate (sortedSet names)

/-- Why a test is skipped. -/
inductive SkipBranch
  | otherBinding (targets : List TransportBinding) (binding : TransportBinding)
  | deferred (kinds : List StepKind)
  | missing (requirements : List RunnerRequirement)
  | unknownCapability (name : String)
  | capability (name : KnownCapability) (actual expected : Bool)
  | capabilityValue (name : KnownCapability) (actual expected : Value)
  | authentication (actual expected : Bool)
  | skills (absent : List String)
  | bindings (wanted : List TransportBinding)
  | extensions (absent : List String)

namespace SkipBranch

variable (py : Interpreter)

/-- The reason as the report shows it. -/
def text : SkipBranch → String
  | otherBinding targets binding =>
      "targets " ++ ", ".intercalate (targets.map TransportBinding.value) ++
        "; this runner speaks " ++ binding.value
  | deferred kinds =>
      "contains " ++ joinSorted (kinds.map StepKind.value) ++ " step(s); not yet supported"
  | missing requirements =>
      "runner does not provide " ++ joinSorted (requirements.map RunnerRequirement.value)
  | unknownCapability name =>
      unsatisfiable ++ Text.repr name ++ " is not a capability A2A defines (" ++
        joinSorted knownCapabilities ++ "), so no agent card can advertise it"
  | capability name actual expected =>
      "agent card capability " ++ name.val ++ "=" ++ showBool actual ++ ", needs " ++
        showBool expected
  | capabilityValue name actual expected =>
      "agent card capability " ++ name.val ++ "=" ++ actual.repr py ++ ", needs " ++
        expected.repr py
  | authentication actual expected =>
      "agent card authentication=" ++ showBool actual ++ ", needs " ++ showBool expected
  | skills absent => "agent card lacks skill(s) " ++ joinSorted absent
  | bindings wanted =>
      "agent card advertises no binding among " ++
        joinSorted (wanted.map TransportBinding.value)
  | extensions absent => "agent card lacks extension(s) " ++ joinSorted absent

end SkipBranch

section Card

/-- `v or []`. -/
def orEmptyList (v : Value) : Value := if v.truthy then v else .list []

/-- A member of a set: lists and mappings cannot be one. -/
def hashed : Value → Except PyError Value
  | .scalar s => pure (.scalar s)
  | _ => throw .typeError

/-- The set of what `item.get(key)` gives for the items of `v`. -/
def attributeSet (key : String) (v : Value) : Except PyError (List Value) := do
  let items ← (orEmptyList v).iterate
  items.mapM fun item => do
    let member ← item.getOr key .null
    hashed member

/-- The members of the first set that the second one lacks. -/
def setDifference (wanted present : List Value) : List Value :=
  wanted.filter fun v => !present.any fun w => w.eq v

variable (py : Interpreter)

/-- The check of `preconditions.capabilities`. -/
def capabilitySkip (advertised : Value) : Fields → Except PyError (Option SkipBranch)
  | [] => pure none
  | (name, expected) :: rest =>
      if known : name ∈ knownCapabilities then do
        let actual ← advertised.getOr name (.bool false)
        match expected with
        | .scalar (.bool needed) =>
            -- a card that omits a capability has not advertised it
            if actual.truthy ≠ needed then
              pure (some (.capability ⟨name, known⟩ actual.truthy needed))
            else capabilitySkip advertised rest
        | _ =>
            if actual.eq expected then capabilitySkip advertised rest
            else pure (some (.capabilityValue ⟨name, known⟩ actual expected))
      else pure (some (.unknownCapability name))

/-- The check of `preconditions.authentication`. -/
def authenticationSkip (card : Value) : Option Bool → Except PyError (Option SkipBranch)
  | none => pure none
  | some needed => do
      let schemes ← card.getOr "securitySchemes" .null
      let required ←
        if schemes.truthy then do
          let requirements ← card.getOr "securityRequirements" .null
          pure requirements.truthy
        else pure false
      if required ≠ needed then pure (some (.authentication required needed)) else pure none

/-- The check of `preconditions.skills`. -/
def skillsSkip (card : Value) (skills : List Fields) : Except PyError (Option SkipBranch) := do
  let wanted ← (skills.filterMap fun skill => skill.lookup "id").mapM hashed
  if wanted.isEmpty then pure none
  else do
    let skills ← card.getOr "skills" .null
    let present ← attributeSet "id" skills
    let absent := setDifference wanted present
    if absent.isEmpty then pure none
    else do
      let names ← Value.texts absent
      pure (some (.skills names))

/-- The check of `preconditions.transport`. -/
def transportSkip (card : Value) (transport : List TransportBinding) :
    Except PyError (Option SkipBranch) :=
  if transport.isEmpty then pure none
  else do
    let interfaces ← card.getOr "supportedInterfaces" .null
    let items ← (orEmptyList interfaces).iterate
    let present ← items.mapM fun item => do
      let binding ← item.getOr "protocolBinding" (.str "")
      pure (py.lower (binding.text py))
    if transport.any fun t => decide (t.value ∈ present) then pure none
    else pure (some (.bindings transport))

/-- The check of `preconditions.extensions`. -/
def extensionsSkip (advertised : Value) (extensions : List String) :
    Except PyError (Option SkipBranch) :=
  if extensions.isEmpty then pure none
  else do
    let listed ← advertised.getOr "extensions" .null
    let present ← attributeSet "uri" listed
    let absent := extensions.filter fun uri => !present.any fun v => v.eq (.str uri)
    if absent.isEmpty then pure none else pure (some (.extensions absent))

end Card

/-- The first check that skips the test. -/
def firstSkip : List (Except PyError (Option SkipBranch)) →
    Except PyError (Option SkipBranch)
  | [] => pure none
  | check :: rest => do
      match ← check with
      | some branch => pure (some branch)
      | none => firstSkip rest

/-- What a runner knows about the SUT and itself. -/
structure Gate where
  binding : TransportBinding
  agentCard : Option Value
  capabilities : List RunnerRequirement

namespace Gate

variable (py : Interpreter) (gate : Gate)

/-- `EXECUTABLE_KINDS`. -/
def executableKinds : List StepKind := [.operation, .raw, .client, .webhook]

/-- Evaluate `preconditions` against the agent card. -/
def unmetPrecondition (test : TestFields) : Except Exception (Option SkipBranch) :=
  match test.preconditions, gate.agentCard with
  | none, _ => .ok none
  | some _, none => .error (.runError
      (s!"{test.id} declares preconditions but no agent card is available to evaluate " ++
        "them against"))
  | some preconditions, some card => Except.mapError .builtin do
      let capabilities ← card.getOr "capabilities" .null
      let advertised := if capabilities.truthy then capabilities else .dict []
      firstSkip
        [capabilitySkip advertised (preconditions.capabilities.getD []),
          authenticationSkip card preconditions.authentication,
          skillsSkip card (preconditions.skills.getD []),
          transportSkip py card (preconditions.transport.getD []),
          extensionsSkip advertised (preconditions.extensions.getD [])]

/-- Why this test should not run at all. -/
def skipBranch (test : TestFields) : Except Exception (Option SkipBranch) :=
  if !test.appliesTo gate.binding then
    .ok (some (.otherBinding (test.transport.getD []) gate.binding))
  else
    let deferred := (test.steps.map fun step => step.kind).filter (· ∉ executableKinds)
    let missing := (test.runnerRequirements.getD []).filter (· ∉ gate.capabilities)
    if deferred ≠ [] then .ok (some (.deferred deferred))
    else if missing ≠ [] then .ok (some (.missing missing))
    else unmetPrecondition py gate test

/-- `_skip_reason`. -/
def skipReason (test : TestFields) : Except Exception (Option String) :=
  Option.map (SkipBranch.text py) <$> skipBranch py gate test

end Gate

end A2aItk.Acts
