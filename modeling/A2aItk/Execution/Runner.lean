import A2aItk.Execution.Selection
import A2aItk.Python.Dict
import A2aItk.Traversal.Subgraphs

/-!
# Running a batch

`itk_runner.py`, `execute_itk_test` of `testlib.py` and the `/run` answer of
`itk_service_v2.py`: one cluster is started for the agents of a batch, every
scenario that can run is run against it, and the outcomes are keyed by name.

## Implementation notes

The network, the agents and the traversals are an `Environment`. A commit that
`resolve_ref` returns is a valid one.
-/

namespace A2aItk.Execution

open Python Scenarios
open Traversal (AgentTable AgentEndpoint Subgraph getValidSubgraphs)

/-- How one traversal ended: with its verdict, or with an exception. -/
inductive Outcome
  | finished (passed : Bool)
  | raised
  deriving DecidableEq

/-- A test passes if it ended with success. -/
def Outcome.passed : Outcome → Bool
  | finished passed => passed
  | raised => false

/-- What stops a run. -/
inductive RunError
  | valueError (message : String)
  | matrixError (message : String)
  | permanentError (message : String)
  | infraFailure (message : String)
  | clusterStartup (failures : List (String × String)) (summary : String)
  | raised (e : PyError)

/-- The outside of a run. `outcome i j` is how the `j`-th test of the `i`-th
runnable scenario ends; `start` gives the stage and error of an agent that fails. -/
structure Environment where
  matrix : Matrix
  resolveRef : String → String → Except RunError String
  start : String → Except String AgentEndpoint
  outcome : Nat → Nat → Outcome

section Planning

/-- Where an agent is taken from. -/
inductive TargetSpec
  | mount
  | checkout (repo sha : String)

/-- Each (repo, ref) is looked up once. -/
def resolveSha (env : Environment) (shaCache : Dict (String × String) String)
    (entry : MatrixEntry) : Except RunError String :=
  match shaCache.get? (entry.repo, entry.ref) with
  | some sha => pure sha
  | none => env.resolveRef entry.repo entry.ref

/-- `build_specs`, with the commits looked up so far. -/
def buildSpecs (env : Environment) :
    Dict (String × String) String → List String → Except RunError (List (String × TargetSpec))
  | _, [] => pure []
  | shaCache, sdkId :: rest =>
      if sdkId = sutId then do
        let specs ← buildSpecs env shaCache rest
        pure ((sdkId, .mount) :: specs)
      else match env.matrix.resolve sdkId with
        | .error (.valueError message) => throw (.matrixError message)
        | .error e => throw (.raised e)
        | .ok entry => do
            let sha ← resolveSha env shaCache entry
            let specs ← buildSpecs env (shaCache.set (entry.repo, entry.ref) sha) rest
            pure ((sdkId, .checkout entry.repo sha) :: specs)

/-- The agents of a plan, sorted. -/
def planIds (scenarios : List ResolvedScenario) : List String :=
  sortedSet (scenarios.flatMap ResolvedScenario.sdks)

/-- Every agent the batch needs, each once. -/
def plan (env : Environment) (scenarios : List ResolvedScenario) :
    Except RunError (List (String × TargetSpec)) :=
  buildSpecs env Dict.empty (planIds scenarios)

/-- There is a spec for each agent, in order. -/
theorem buildSpecs_ids {env : Environment} {shaCache : Dict (String × String) String}
    {ids : List String} {specs : List (String × TargetSpec)}
    (h : buildSpecs env shaCache ids = .ok specs) : specs.map Prod.fst = ids := by
  induction ids generalizing shaCache specs with
  | nil =>
      obtain rfl := Except.ok.inj h
      rfl
  | cons sdkId rest ih =>
      unfold buildSpecs at h
      split at h
      · obtain ⟨tail, htail, h⟩ := bind_eq_ok_iff.mp h
        obtain rfl := Except.ok.inj h
        rw [List.map_cons, ih htail]
      · split at h
        · cases h
        · cases h
        · obtain ⟨sha, -, h⟩ := bind_eq_ok_iff.mp h
          obtain ⟨tail, htail, h⟩ := bind_eq_ok_iff.mp h
          obtain rfl := Except.ok.inj h
          rw [List.map_cons, ih htail]

end Planning

section Execution

/-- One test that was run. -/
structure Executed where
  name : String
  passed : Bool
  sdks : List String
  edges : Option (List String)

/-- What a test is called where it has no name. -/
def testLabel (scenarioName : String) : String :=
  if scenarioName.isEmpty then "euler" else scenarioName

/-- A subtest is called after its agents, the whole by its label. -/
def subtestName (label : String) (sdks subSdks : List String) : String :=
  if subSdks.length = sdks.length then label
  else label ++ "-sub-" ++ "-".intercalate subSdks

/-- The tests of one scenario, run in order. -/
def runTests (r : Runnable) (agents : AgentTable) (outcome : Nat → Outcome) :
    Except PyError (List Executed) := do
  let label := testLabel r.scenario.name
  if !r.scenario.buildSubtests then
    return [⟨label, (outcome 0).passed, r.sdks, r.edges⟩]
  let subgraphs ← getValidSubgraphs r.sdks r.edges r.scenario.behavior agents
    r.scenario.protocols r.scenario.streaming
  return subgraphs.zipIdx.map fun p =>
    ⟨subtestName label r.sdks p.1.sdks, (outcome p.2).passed, p.1.sdks, p.1.edges⟩

/-- The tests of one scenario, keyed by name. -/
def executeItkTest (r : Runnable) (agents : AgentTable) (outcome : Nat → Outcome) :
    Except PyError (Dict String Executed) := do
  let tests ← runTests r agents outcome
  return Dict.ofList (tests.map fun t => (t.name, t))

/-- One outcome with the metadata of its scenario. -/
structure ScenarioResult where
  passed : Bool
  sdks : List String
  edges : Option (List String) := none
  protocols : Option (List String) := none
  behavior : Option String := none
  streaming : Bool := false
  tier : Option String := none

/-- The result of one executed test as it is reported. -/
def scenarioResult (scenario : ResolvedScenario) (details : Executed) : ScenarioResult where
  passed := details.passed
  sdks := details.sdks
  edges := details.edges
  protocols := scenario.protocols
  behavior := some scenario.behavior
  streaming := scenario.streaming
  tier := some scenario.tier

/-- The loop over the runnable scenarios, from the `i`-th. -/
def executeAll (agents : AgentTable) (outcome : Nat → Nat → Outcome) :
    Nat → List Runnable → Dict String ScenarioResult →
    Except PyError (Dict String ScenarioResult)
  | _, [], results => pure results
  | i, r :: rest, results => do
      let raw ← executeItkTest r agents (outcome i)
      executeAll agents outcome (i + 1) rest
        (results.update (raw.entries.map fun p => (p.1, scenarioResult r.scenario p.2)))

end Execution

section Run

/-- What a run reports: the results, and what it left out and why. -/
structure RunReport where
  results : Dict String ScenarioResult
  droppedPeers : List (String × String)
  trimmed : List (String × List String)
  skipped : List (String × List String)

/-- The agents of the plan that came up. -/
def startedAgents (env : Environment) (scenarios : List ResolvedScenario) : AgentTable :=
  ⟨(planIds scenarios).filterMap fun id => (env.start id).toOption.map fun e => (id, e)⟩

/-- The agents of the plan that failed, each with its stage and error. -/
def droppedPeers (env : Environment) (scenarios : List ResolvedScenario) :
    List (String × String) :=
  (planIds scenarios).filterMap fun id =>
    match env.start id with
    | .ok _ => none
    | .error detail => some (id, detail)

/-- `sorted(dropped_peers.items())`; the keys are distinct. -/
def sortedPeers (dropped : List (String × String)) : List (String × String) :=
  dropped.insertionSort fun a b => a.1 ≤ b.1

/-- An error of Python code as one of the run. -/
def liftPy {α : Type} : Except PyError α → Except RunError α
  | .ok a => .ok a
  | .error e => .error (.raised e)

/-- `_run_locked`: the cluster, what can be run on it, and the results. -/
def runLocked (env : Environment) (scenarios : List ResolvedScenario) :
    Except RunError RunReport := do
  let _ ← plan env scenarios
  let dropped := droppedPeers env scenarios
  if sutId ∈ dropped.map Prod.fst then
    throw (.clusterStartup (sortedPeers dropped)
      s!"the code under test ({Text.repr sutId}) failed to start")
  let agents := startedAgents env scenarios
  let selection ← liftPy (selectRunnable scenarios agents)
  if selection.runnable.isEmpty then
    throw (.clusterStartup (sortedPeers dropped)
      "every scenario needed a peer that failed to start")
  let results ← liftPy (executeAll agents env.outcome 0 selection.runnable Dict.empty)
  return ⟨results, dropped, selection.trimmed, selection.skipped⟩

/-- Start one cluster and run every scenario against it. -/
def runScenarios (env : Environment) (scenarios : List ResolvedScenario) :
    Except RunError RunReport :=
  if scenarios.isEmpty then throw (.valueError "No scenarios provided")
  else runLocked env scenarios

end Run

section Answer

/-- What the service answers about agents that did not start. -/
structure StartupReport where
  droppedPeers : List (String × String)
  trimmed : List (String × List String) := []
  skipped : List (String × List String) := []
  clusterError : Option String := none

/-- The answer of the service. -/
structure RunTestsResponse where
  results : Dict String ScenarioResult
  allPassed : Bool
  startup : Option StartupReport := none

/-- It is left out where every agent started. -/
def startupReport (report : RunReport) : Option StartupReport :=
  if report.droppedPeers.isEmpty then none
  else some {
    droppedPeers := report.droppedPeers
    trimmed := report.trimmed
    skipped := report.skipped }

/-- The answer to a run that finished. -/
def runResponse (report : RunReport) : RunTestsResponse where
  results := report.results
  allPassed := report.results.values.all ScenarioResult.passed
  startup := startupReport report

/-- The text of the error where nothing could be run. -/
def clusterStartupMessage (failures : List (String × String)) (summary : String) : String :=
  let headline := if summary.isEmpty then "" else s!" ({summary})"
  s!"Cluster startup failed{headline}: " ++
    "; ".intercalate (failures.map fun f => s!"{f.1}: {f.2}")

/-- A run that could not start anything: every scenario is recorded as failed. -/
def clusterFailureResponse (scenarios : List ResolvedScenario)
    (failures : List (String × String)) (summary : String) : RunTestsResponse where
  results := Dict.ofList (scenarios.map fun s =>
    (s.name, scenarioResult s ⟨s.name, false, s.sdks, s.edges⟩))
  allPassed := false
  startup := some {
    droppedPeers := failures
    clusterError := some (clusterStartupMessage failures summary) }

/-- The `/run` handler after the batch is resolved; what it cannot answer is an
HTTP error. -/
def answer (env : Environment) (scenarios : List ResolvedScenario) :
    Except RunError RunTestsResponse :=
  match runScenarios env scenarios with
  | .ok report => .ok (runResponse report)
  | .error (.clusterStartup failures summary) =>
      .ok (clusterFailureResponse scenarios failures summary)
  | .error e => .error e

end Answer

end A2aItk.Execution
