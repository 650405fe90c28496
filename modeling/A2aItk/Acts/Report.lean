import A2aItk.Acts.Corpus
import A2aItk.Acts.Results
import A2aItk.Python.Objects
import Mathlib.Data.List.Sort

/-!
# The report document

`acts/report.py`, and the two scripts that read a report: the results of a run become
the JSON document every consumer reads, and each consumer derives its verdict from it.

## Implementation notes

A report is plain data. What names a run (the clock, the platform) comes as an argument.
The verdicts of the scripts `acts_report.py` and `process_acts_results.py` are in the
namespaces of these names.
-/

namespace A2aItk.Acts

open Python

namespace Level

/-- The level as reports spell it. -/
def value : Level → String
  | must => "must"
  | should => "should"
  | may => "may"

/-- The levels in the order of a report. -/
def all : List Level := [must, should, may]

end Level

/-- The outcome as reports spell it. -/
def Outcome.value : Outcome → String
  | pass => "pass"
  | fail => "fail"
  | skip => "skip"
  | error => "error"

/-- The runner's verdict: no `must` test failed or errored. -/
def isConformant (results : List TestResult) : Bool :=
  !results.any fun r => r.level = .must && (r.result = .fail || r.result = .error)

namespace Report

/-- `as_json`: the fields that are marked optional are dropped where they are unset. -/
def failureJson (failure : FailureDetail) : Value :=
  .given [("message", some (.str failure.message)), ("step_id", failure.stepId.map .str),
    ("expected", failure.expected), ("actual", failure.actual),
    ("assertion_path", failure.assertionPath.map .scalar)]

/-- A step as it is reported. -/
def stepJson (step : StepResult) : Value :=
  .given [("id", some (.str step.id)), ("result", some (.str step.result.value)),
    ("duration_ms", some (.int step.durationMs)), ("failure", step.failure.map failureJson)]

/-- `_test_result`: optional keys are omitted when unset. -/
def testResult (r : TestResult) : Value :=
  .given [("id", some (.str r.id)), ("name", some (.str r.name)),
    ("level", some (.str r.level.value)), ("result", some (.str r.result.value)),
    ("duration_ms", some (.int r.durationMs)),
    ("skip_reason", (r.skipReason.filter (· ≠ "")).map .str),
    ("configuration", (r.configuration.filter (· ≠ "")).map .str),
    ("failure", r.failure.map failureJson),
    ("steps", if r.steps.isEmpty then none else some (.list (r.steps.map stepJson)))]

/-- How many tests ended like this. -/
def count (results : List TestResult) (outcome : Outcome) : Value :=
  .int (results.countP fun r => r.result = outcome)

/-- The counters of a summary. -/
def counters (results : List TestResult) : List (String × Value) :=
  [("total", .int results.length), ("passed", count results .pass),
    ("failed", count results .fail), ("skipped", count results .skip),
    ("errors", count results .error)]

/-- The counters of one level. -/
def levelSummary (results : List TestResult) (level : Level) : Value :=
  .object (counters (results.filter fun r => r.level = level))

/-- The counters of a run, and those of each level. -/
def summarize (results : List TestResult) (durationMs : ℤ) : Value :=
  .object (counters results ++ [("duration_ms", .int durationMs),
    ("by_level", .object (Level.all.map fun level => (level.value, levelSummary results level)))])

/-- One suite of a report. -/
structure SuiteEntry where
  id : String
  name : String
  tests : List Value

/-- A suite as it is reported. -/
def SuiteEntry.json (entry : SuiteEntry) : Value :=
  .object [("id", .str entry.id), ("name", .str entry.name), ("tests", .list entry.tests)]

/-- A loaded test puts its result under its suite, which is opened where it is new. -/
def placed (byId : Dict String TestResult) (grouped : Dict String SuiteEntry)
    (loaded : LoadedTest) : Dict String SuiteEntry :=
  match byId.get? loaded.id with
  | none => grouped
  | some r =>
      let entry := (grouped.get? loaded.suiteId).getD ⟨loaded.suiteId, loaded.suiteName, []⟩
      grouped.set loaded.suiteId { entry with tests := entry.tests ++ [testResult r] }

/-- `_suites`: results under the suites they were loaded from, in the loader's order. -/
def suites (results : List TestResult) (suite : LoadedSuite) : List Value :=
  let byId := Dict.ofList (results.map fun r => (r.id, r))
  let grouped := suite.tests.foldl (placed byId) Dict.empty
  let orphans := results.filter fun r => r.id ∉ suite.tests.map LoadedTest.id
  let complete :=
    if orphans.isEmpty then grouped
    else grouped.set "(unknown)" {
      id := "(unknown)"
      name := "Results with no suite in the loaded corpus"
      tests := orphans.map testResult }
  complete.values.map SuiteEntry.json

/-- What a report says about its run, besides the results. -/
structure Info where
  sdk : Dict String String
  transport : TransportBinding
  durationMs : ℤ
  specVersion : String := "1.0"
  actsVersion : String := "1.0"
  environment : Dict String String
  /-- The ISO time in UTC. -/
  generatedAt : String

/-- Texts under their names, as an object. -/
def textFields (d : Dict String String) : Value :=
  .object (d.entries.map fun entry => (entry.1, .str entry.2))

/-- `text.replace('+00:00', 'Z')`. -/
def zulu (text : String) : String :=
  String.ofList (['Z'].intercalate (Text.split "+00:00".toList text.toList))

/-- The names an SDK must give, sorted. -/
def sdkFields : List String := ["language", "name", "version"]

/-- Build a report document. -/
def build (results : List TestResult) (suite : LoadedSuite) (info : Info) :
    Except PyError Value :=
  let missing := sdkFields.filter (· ∉ info.sdk.keys)
  if missing ≠ [] then
    throw (.valueError ("sdk-info needs [" ++ ", ".intercalate (missing.map Text.repr) ++
      "] (spec §13.1)"))
  else pure (.object [
    ("acts_version", .str info.actsVersion), ("spec_version", .str info.specVersion),
    ("generated_at", .str (zulu info.generatedAt)), ("sdk", textFields info.sdk),
    ("transport", .str info.transport.value), ("environment", textFields info.environment),
    ("summary", summarize results info.durationMs),
    ("suites", .list (suites results suite))])

/-- The report's verdict: every graded `must` test passed. -/
def isConformant (report : Value) : Except PyError Bool := do
  let must ← (← (← report.item "summary").item "by_level").item Level.must.value
  let failed ← must.item "failed"
  if failed.eq (.int 0) then
    let errors ← must.item "errors"
    pure (errors.eq (.int 0))
  else pure false

end Report

/-- `scripts/acts_report.py`. -/
def ActsReport.isConformant (report : Value) : Except PyError Bool := do
  let must ← (← (← report.item "summary").item "by_level").getOr "must" (.dict [])
  let failed ← must.getOr "failed" .null
  if failed.truthy then pure false
  else
    let errors ← must.getOr "errors" .null
    pure !errors.truthy

namespace ProcessActsResults

/-- `v or fallback`. -/
def orElse (v fallback : Value) : Value := if v.truthy then v else fallback

/-- `report.get(key) or {}`. -/
def partOf (report : Value) (key : String) : Except PyError Value := do
  let part ← report.getOr key .null
  pure (orElse part (.dict []))

/-- The record of one test, with why it did not pass. -/
def compileTest (test : Value) : Except PyError Value := do
  let id ← test.item "id"
  let level ← test.getOr "level" (.str "must")
  let result ← test.getOr "result" (.str "error")
  let failure ← test.getOr "failure" .null
  let skipReason ← test.getOr "skip_reason" .null
  pure (.object ([("id", id), ("level", level), ("result", result)] ++
    (if failure.truthy then [("failure", failure)] else []) ++
    (if skipReason.truthy then [("skip_reason", skipReason)] else [])))

/-- The tests of a report, in the order of its suites. -/
def reportTests (report : Value) : Except PyError (List Value) := do
  let suites ← (← report.getOr "suites" (.list [])).iterate
  let tests ← suites.mapM fun suite => do
    let tests ← suite.getOr "tests" (.list [])
    tests.iterate
  pure tests.flatten

/-- The records of a report, test by test. -/
def compileTests (report : Value) : Except PyError (List Value) := do
  let tests ← reportTests report
  tests.mapM compileTest

/-- No test that must pass has failed or could not be run. -/
def isConformant (report : Value) : Except PyError Bool := do
  let must ← partOf (← partOf (← partOf report "summary") "by_level") "must"
  let failed ← must.getOr "failed" .null
  if failed.truthy then pure false
  else
    let errors ← must.getOr "errors" .null
    pure !errors.truthy

/-- The counters that are carried over. -/
def countNames : List String := ["total", "passed", "failed", "skipped", "errors", "duration_ms"]

/-- One binding's slice of a run entry. -/
structure Slice where
  conformant : Bool
  summary : List (String × Value)
  byLevel : Value
  tests : List Value

/-- What is published of one report. -/
def compileTransport (report : Value) : Except PyError Slice := do
  let summary ← partOf report "summary"
  let conformant ← isConformant report
  let counts ← countNames.mapM fun k => do
    let v ← summary.getOr k (.int 0)
    pure (k, v)
  let byLevel ← partOf summary "by_level"
  let tests ← compileTests report
  pure ⟨conformant, counts, byLevel, tests⟩

/-- One history entry: the slice of each binding a run exercised. -/
structure RunEntry where
  transports : List String
  conformant : Bool
  results : Dict String Slice

/-- The name of the binding a report is about. -/
def transportOf (report : Value) : Except PyError String := do
  match ← report.getOr "transport" (.str "unknown") with
  | .scalar (.str transport) => pure transport
  | _ => throw .typeError

/-- `build_run`, without the stamps and the sums over the bindings. -/
def buildRun (reports : List Value) : Except PyError RunEntry := do
  if reports.isEmpty then throw (.valueError "build_run needs at least one report")
  let slices ← reports.mapM fun report => do
    let transport ← transportOf report
    let slice ← compileTransport report
    pure (transport, slice)
  let results := Dict.ofList slices
  pure ⟨results.keys.insertionSort (· ≤ ·), results.values.all Slice.conformant, results⟩

end ProcessActsResults

end A2aItk.Acts
