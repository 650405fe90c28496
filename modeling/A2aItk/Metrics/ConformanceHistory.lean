import A2aItk.Acts.ConformanceResults
import A2aItk.Acts.Verdicts
import A2aItk.Metrics.History

/-!
# The nightly history of the conformance runs

An ACTS night of `run_itk_shared.sh`: `/run-acts` is asked for a run over each binding,
`acts_report.py` validates each report, and `process_acts_results.py` makes one entry of them
all.

## Implementation notes

A report on disk is one that the service built, with the run behind it. Its counters are
integers, and `plus` adds nothing else.
-/

namespace A2aItk.Metrics

open Python Acts
open ProcessActsResults (RunEntry Slice compileTests compileTransport buildRun countNames)

section Service

/-- A report that `/run-acts` answered. -/
structure ServedReport where
  request : RunRequest
  info : ReportInfo
  run : ActsRun
  report : Value
  ran : ∃ (σ : Type) (harness : Harness σ) (w t : World σ), harness.run request w = .ok run t
  built : toReport info run = .ok report

/-- What is on disk after a request: no JSON, the envelope of an error, or a report. -/
inductive ActsAnswer
  | unreadable
  | envelope (detail : String)
  | report (served : ServedReport)

/-- The detail of an HTTP error; `text` is what `str` makes of an exception. -/
def detailOf (text : Exception → String) : RunFailure → String
  | .actsRunError message => message
  | .noApplicableTests message => message
  | .raised e => "ACTS error: " ++ text e

/-- `/run-acts`, from the run that is asked for. -/
def runActs {σ : Type} (harness : Harness σ) (text : Exception → String) (request : RunRequest)
    (info : ReportInfo) (w : World σ) : ActsAnswer × World σ :=
  match hran : harness.run request w with
  | .error e t => (.envelope (detailOf text e), t)
  | .ok run t =>
      match hbuilt : toReport info run with
      | .error _ => (.unreadable, t)
      | .ok report => (.report ⟨request, info, run, report, ⟨σ, harness, w, t, hran⟩, hbuilt⟩, t)

/-- The requests of a night, one after the other to one service. -/
def runAllActs {σ : Type} (harness : Harness σ) (text : Exception → String) :
    List (RunRequest × ReportInfo) → World σ → List ActsAnswer
  | [], _ => []
  | (request, info) :: rest, w =>
      let answered := runActs harness text request info w
      answered.1 :: runAllActs harness text rest answered.2

def ActsAnswer.json : ActsAnswer → Option Value
  | unreadable => none
  | envelope detail => some (.object [("detail", .str detail)])
  | report served => some served.report

end Service

section Scripts

/-- `acts_report.validate`. -/
def validReport : Value → Bool
  | .dict entries =>
      let given (key : String) := (Value.lookup (.str key) entries).isSome
      let summarized := match Value.lookup (.str "summary") entries with
        | some (.dict summary) => (Value.lookup (.str "by_level") summary).isSome &&
            ((Value.lookup (.str "total") summary).getD .null).truthy
        | _ => false
      !(given "detail" && !given "summary") &&
        (["summary", "suites", "sdk", "transport"].all given && summarized)
  | _ => false

/-- Whether `acts_report.py` exits with 0 on a night, where no verdict is required. -/
def reported (json : Option Value) : Bool := (json.map validReport).getD false

/-- `+` of two counters. -/
def plus : Value → Value → Except PyError Value
  | .int m, .int n => pure (.int (m + n))
  | _, _ => throw .typeError

/-- One round of the sums over the bindings. -/
def addCounts (totals : List (String × Value)) (slice : Slice) :
    Except PyError (List (String × Value)) :=
  totals.mapM fun entry => do
    let total ← plus entry.2 ((slice.summary.lookup entry.1).getD (.int 0))
    pure (entry.1, total)

/-- The sums over the bindings. -/
def totalsOf (results : Dict String Slice) : Except PyError (List (String × Value)) :=
  results.values.foldlM addCounts (countNames.map fun key => (key, .int 0))

/-- One run of the history. -/
structure ActsHistoryRun where
  stamp : Stamp
  sdk : Value
  sdkVersion : Value
  actsVersion : Value
  specVersion : Value
  entry : RunEntry
  summary : List (String × Value)

/-- `build_run`. -/
def historyEntry (stamp : Stamp) : List Value → Except PyError ActsHistoryRun
  | [] => throw (.valueError "build_run needs at least one report")
  | first :: rest => do
      let entry ← buildRun (first :: rest)
      let summary ← totalsOf entry.results
      let sdk ← ProcessActsResults.partOf first "sdk"
      let name ← sdk.getOr "name" (.str "unknown")
      let version ← sdk.getOr "version" (.str "unknown")
      let actsVersion ← first.getOr "acts_version" (.str "")
      let specVersion ← first.getOr "spec_version" (.str "")
      pure ⟨stamp, name, version, actsVersion, specVersion, entry, summary⟩

/-- `len(set(l)) == len(l)`. -/
def allDistinct (l : List Value) : Bool :=
  decide (l.Pairwise fun v w => v.eq w = false)

/-- The reports of a night, none empty and no two over one binding; an exit is `none`. -/
def loadReports (files : List (Option Value)) : Option (List Value) := do
  let reports ← (files.mapM id).filter fun reports => !reports.isEmpty
  let _ ← (reports.mapM compileTests).toOption.filter fun records => !records.any List.isEmpty
  let _ ← (reports.mapM fun report : Value => report.getOr "transport" .null).toOption.filter
    allDistinct
  pure reports

/-- `process_acts_results.main`: the history it writes; an exit before that is `none`. -/
def processActsResults (files : List (Option Value)) (fetched : Option (List ActsHistoryRun))
    (limit : Option ℤ) (stamp : Stamp) : Option (List ActsHistoryRun) := do
  let reports ← loadReports files
  let history ← fetched
  let run ← (historyEntry stamp reports).toOption
  let limit ← limit
  pure (pruned limit (history ++ [run]))

end Scripts

section Nights

/-- A night of the conformance runs of one SDK. -/
structure ActsNight where
  answers : List ActsAnswer
  /-- Whether the history can be fetched, where there is one. -/
  fetches : Bool
  stamp : Stamp
  /-- Whether the file is written. -/
  written : Bool
  /-- Whether it is uploaded. -/
  uploaded : Bool

namespace ActsNight

variable (night : ActsNight)

/-- What is written on a night, over what is published. -/
def process (limit : Option ℤ) (published : Option (List ActsHistoryRun)) :
    Option (List ActsHistoryRun) :=
  let fetched := if night.fetches then some (published.getD []) else none
  match processActsResults (night.answers.map ActsAnswer.json) fetched limit night.stamp with
  | none => none
  | some history => if night.written then some history else none

/-- Whether the driver exits with 0. -/
def succeeds (limit : Option ℤ) (published : Option (List ActsHistoryRun)) : Bool :=
  (night.answers.map ActsAnswer.json).all reported && (night.process limit published).isSome

/-- The asset after a night. -/
def publish (limit : Option ℤ) (published : Option (List ActsHistoryRun)) :
    Option (List ActsHistoryRun) :=
  if night.uploaded then night.process limit published <|> published else published

/-- The entry that a night's reports make. -/
def entry : Option ActsHistoryRun :=
  (loadReports (night.answers.map ActsAnswer.json)).bind fun reports =>
    (historyEntry night.stamp reports).toOption

/-- What a night adds to the history, if it gets that far. -/
def recorded : Option ActsHistoryRun :=
  if night.fetches && night.written && night.uploaded then night.entry else none

end ActsNight

end Nights

end A2aItk.Metrics
