import A2aItk.Dashboard.Quoted
import A2aItk.Python.Grouping

/-!
# The conformance table

`dashboard/src/acts/lib.ts`: the results of a run, one row for each test and one cell for
each transport, in suites and under filters.
-/

namespace A2aItk.Dashboard

open Python (Dict)

/-- The transports of a run, in the order they are shown in. -/
inductive Transport
  | jsonrpc
  | grpc
  | rest
  deriving DecidableEq

/-- The strength of a requirement: what must, should or may be met. -/
inductive Level
  | must
  | should
  | may
  deriving DecidableEq

/-- What became of one test over one transport. -/
inductive Outcome
  | pass
  | fail
  | skip
  | error
  deriving DecidableEq

/-- An outcome as the published file spells it. -/
def Outcome.text : Outcome → String
  | pass => "pass"
  | fail => "fail"
  | skip => "skip"
  | error => "error"

/-- Why a test failed, as far as the runner could tell. -/
structure Failure where
  message : String
  stepId : Option String := none
  expected : Option String := none
  actual : Option String := none
  assertionPath : Option String := none
  deriving DecidableEq

/-- The record of one test over one transport. -/
structure TestResult where
  id : String
  level : Level
  result : Outcome
  skipReason : Option String := none
  failure : Option Failure := none
  deriving DecidableEq

/-- The records of a transport. -/
structure TransportResult where
  tests : List TestResult

/-- A published run: the records of the transports that took part. -/
structure ActsRun where
  results : Dict Transport TransportResult

/-- A row of the table: one test, with a cell for each transport that has a record of it. -/
structure TestRow where
  id : String
  suite : String
  level : Level
  cells : Dict Transport TestResult
  deviates : Bool
  failing : Bool

/-- The rows under one heading of the table. -/
structure SuiteGroup where
  suite : String
  rows : List TestRow

/-- Which rows a reader has asked for. -/
inductive RowFilter
  | all
  | failing
  | skipped

/-- Column order of the table. -/
def transports : List Transport := [.jsonrpc, .grpc, .rest]

/-- What stands before the first dash. -/
def suiteOf (id : String) : String :=
  let token := String.ofList (id.toList.takeWhile (· ≠ '-'))
  if token = "" then "other" else token

/-- The columns: the transports the run has records of. -/
def runTransports (run : ActsRun) : List Transport :=
  transports.filter fun transport => (run.results.get? transport).isSome

/-- `run.results[transport]?.tests ?? []`. -/
def testsOf (run : ActsRun) (transport : Transport) : List TestResult :=
  ((run.results.get? transport).map TransportResult.tests).getD []

section Rows

/-- The row of a test before any transport is entered. -/
def newRow (test : TestResult) : TestRow where
  id := test.id
  suite := suiteOf test.id
  level := test.level
  cells := .empty
  deviates := false
  failing := false

/-- The row with one more cell. It deviates and fails where any of its cells does. -/
def addCell (row : TestRow) (transport : Transport) (test : TestResult) : TestRow :=
  { row with
    cells := row.cells.set transport test
    deviates := row.deviates || test.result ≠ .pass
    failing := row.failing || (test.result = .fail || test.result = .error) }

/-- The rows with one more record. Its row is begun where there is none yet. -/
def addResult (transport : Transport) (rows : Dict String TestRow) (test : TestResult) :
    Dict String TestRow :=
  rows.set test.id (addCell ((rows.get? test.id).getD (newRow test)) transport test)

/-- The rows of a run, in the order in which their tests first come up. -/
def buildRows (run : ActsRun) : List TestRow :=
  ((runTransports run).foldl (fun rows transport =>
    (testsOf run transport).foldl (addResult transport) rows) Dict.empty).values

/-- The rows by suite, suites in the order in which they first come up. -/
def groupBySuite (rows : List TestRow) : List SuiteGroup :=
  (Dict.gatherLists TestRow.suite id rows).entries.map fun entry => ⟨entry.1, entry.2⟩

/-- The row belongs to what the reader has asked for. -/
def rowMatches (row : TestRow) : RowFilter → Bool
  | .all => true
  | .failing => row.failing
  | .skipped => row.deviates && !row.failing

/-- How many rows each filter leaves. -/
structure FilterCounts where
  all : ℕ
  failing : ℕ
  skipped : ℕ

/-- The count that stands beside a filter. -/
def FilterCounts.get (counts : FilterCounts) : RowFilter → ℕ
  | .all => counts.all
  | .failing => counts.failing
  | .skipped => counts.skipped

/-- One pass over the rows: each counts as failing, as skipped or as neither. -/
def filterCounts (rows : List TestRow) : FilterCounts :=
  let counted := rows.foldl (fun (counted : ℕ × ℕ) row =>
    if row.failing then (counted.1 + 1, counted.2)
    else if row.deviates then (counted.1, counted.2 + 1)
    else counted) (0, 0)
  ⟨rows.length, counted.1, counted.2⟩

end Rows

section Reasons

/-- Everything that distinguishes one reason from another. -/
def reasonOf (test : TestResult) : List String :=
  [ test.result.text,
    test.skipReason.getD "",
    (test.failure.map Failure.message).getD "",
    (test.failure.bind Failure.stepId).getD "",
    (test.failure.bind Failure.expected).getD "",
    (test.failure.bind Failure.actual).getD "",
    (test.failure.bind Failure.assertionPath).getD "" ]

/-- The text by which reasons are told apart. -/
def reasonKey (test : TestResult) : String := stringify (reasonOf test)

/-- A reason, and the transports that give it. -/
structure Deviation where
  transports : List Transport
  test : TestResult

/-- One more transport gives a reason, or is the first to give it. -/
def addDeviation (existing : Option Deviation) (transport : Transport) (test : TestResult) :
    Deviation :=
  match existing with
  | some deviation => { deviation with transports := deviation.transports ++ [transport] }
  | none => ⟨[transport], test⟩

/-- The reasons a row gives for not passing, each with the transports that share it. -/
def deviationsOf (row : TestRow) (transports : List Transport) : List Deviation :=
  (transports.foldl (fun byReason transport =>
    match row.cells.get? transport with
    | none => byReason
    | some test =>
        if test.result = .pass then byReason
        else
          byReason.set (reasonKey test)
            (addDeviation (byReason.get? (reasonKey test)) transport test))
    Dict.empty).values

end Reasons

end A2aItk.Dashboard
