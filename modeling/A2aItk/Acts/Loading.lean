import A2aItk.Acts.Documents
import A2aItk.Launcher.TreeFiles

/-!
# Loading a manifest

`acts/loader.py`: the files that a manifest includes, each once and in the order they are
reached, are validated and flattened. A lenient load validates a file that fails once more,
test by test.

## Implementation notes

Paths are absolute, by their components. Symbolic links and `..` are the parameter
`resolve`, and `parsed` is what the YAML parser makes of a file, or the text of its error.
-/

namespace A2aItk.Acts.Loader

open Python
open Launcher (Path)
open Scenarios (Problem renderProblems typeName)

/-- The file system, as the loader sees it. -/
structure FileSystem where
  files : List Path
  resolve : Path → Path
  parsed : Path → Except String Value

namespace Paths

/-- `str(path)`. -/
def text (path : Path) : String := "/" ++ "/".intercalate path

def parent (path : Path) : Path := path.dropLast

/-- `path.parents`. -/
def parents (path : Path) : List Path := path.inits.dropLast

/-- `directory / entry`. -/
def join (directory : Path) (entry : String) : Path :=
  let parts := ((Text.split ['/'] entry.toList).map String.ofList).filter
    fun part => part ≠ "" ∧ part ≠ "."
  if entry.toList.head? = some '/' then parts else directory ++ parts

/-- `path.name`, of the text of a path. -/
def nameOf (source : String) : String :=
  String.ofList ((Text.split ['/'] source.toList).getLast?.getD [])

/-- `_is_within`. -/
def isWithin (candidate root : Path) : Bool := candidate = root || (parents candidate).contains root

end Paths

section Includes

variable (fs : FileSystem) (root : Path)

/-- `_read_yaml`. -/
def readYaml (path : Path) : Except PyError Value :=
  if fs.files.contains path then
    match fs.parsed path with
    | .ok data =>
        if data.isNull then throw (.valueError (Paths.text path ++ ": file is empty"))
        else pure data
    | .error e => throw (.valueError (Paths.text path ++ ": could not parse: " ++ e))
  else throw (.valueError ("ACTS file not found: " ++ Paths.text path))

/-- The contents of a file of the walk. -/
def readMapping (current : Path) : Except PyError Value := do
  let raw ← readYaml fs current
  if raw.isMapping then pure raw
  else throw (.valueError (Paths.text current ++
    ": expected a mapping at the top level, got " ++ typeName raw))

/-- The file that an entry of `include` names. -/
def child (current : Path) (entry : Value) : Except PyError Path :=
  match entry with
  | .scalar (.str name) =>
      let path := fs.resolve (Paths.join (Paths.parent current) name)
      if !Paths.isWithin path root then
        throw (.valueError (Paths.text current ++ ": include " ++ Text.repr name ++
          " escapes the suite directory (" ++ Paths.text root ++ ")"))
      else if !fs.files.contains path then
        throw (.valueError (Paths.text current ++ ": included file not found: " ++ name))
      else pure path
  | _ => throw (.valueError (Paths.text current ++
      ": `include` entries must be filenames, got " ++ typeName entry))

/-- The files that a document includes, in order. -/
def children (current : Path) (raw : Value) : Except PyError (List Path) :=
  match (raw.get? (.str "include")).getD (.list []) with
  | .list entries => entries.mapM (child fs root current)
  | _ => throw (.valueError (Paths.text current ++ ": `include` must be a list of filenames"))

/-- One file of the walk: its contents and the files it includes. -/
def visit (current : Path) : Except PyError (Value × List Path) := do
  let raw ← readMapping fs current
  let included ← children fs root current raw
  pure (raw, included)

theorem mem_files_of_visit {fs : FileSystem} {root current : Path} {r : Value × List Path}
    (h : visit fs root current = .ok r) : current ∈ fs.files := by
  obtain ⟨raw, hraw, -⟩ := bind_eq_ok_iff.mp h
  obtain ⟨data, hdata, -⟩ := bind_eq_ok_iff.mp hraw
  unfold readYaml at hdata
  split at hdata
  · exact List.mem_of_elem_eq_true ‹_›
  · cases hdata

/-- The files that are still to be visited. -/
def unvisited (ordered : List (Path × Value)) : List Path :=
  fs.files.filter fun path => !(ordered.map Prod.fst).contains path

theorem length_unvisited_lt {fs : FileSystem} {ordered : List (Path × Value)} {current : Path}
    (raw : Value) (hfile : current ∈ fs.files) (hnew : current ∉ ordered.map Prod.fst) :
    (unvisited fs (ordered ++ [(current, raw)])).length < (unvisited fs ordered).length := by
  have hsub : unvisited fs (ordered ++ [(current, raw)]) =
      (unvisited fs ordered).filter fun path => path ≠ current := by
    unfold unvisited
    rw [List.filter_filter]
    apply List.filter_congr
    intro path _
    rw [Bool.eq_iff_iff]
    simp [not_or, and_comm]
  rw [hsub, List.length_filter_lt_length_iff_exists]
  exact ⟨current, List.mem_filter.mpr ⟨hfile, by simpa using hnew⟩, by simp⟩

/-- The walk: `stack` from its top, and what was visited so far, in order. -/
def walk (stack : List Path) (ordered : List (Path × Value)) :
    Except PyError (List (Path × Value)) :=
  match stack with
  | [] => pure ordered
  | current :: stack =>
      if _ : current ∈ ordered.map Prod.fst then walk stack ordered
      else match _ : visit fs root current with
        | .ok (raw, included) => walk (included ++ stack) (ordered ++ [(current, raw)])
        | .error e => throw e
termination_by ((unvisited fs ordered).length, stack.length)
decreasing_by
  · exact .right _ (Nat.lt_succ_self _)
  · exact .left _ _ (length_unvisited_lt raw (mem_files_of_visit ‹_›) ‹_›)

/-- Depth-first walk of `include`, manifest first. -/
def resolveIncludes (manifest : Path) : Except PyError (List (Path × Value)) :=
  walk fs (fs.resolve (Paths.parent manifest)) [fs.resolve manifest] []

end Includes

section Documents

variable (py : Interpreter) (checks : Checks)

/-- `parse_document` of the contents of a file. -/
def parseDocument (path : Path) (raw : Value) : Except PyError ActsDocument :=
  match raw with
  | .dict entries => Scenarios.validated (Paths.text path) (checks.document py entries)
  | _ => throw (.valueError (Paths.text path ++
      ": expected a mapping at the top level, got " ++ typeName raw))

/-- Where a raw test stands in its file. -/
def testPlace (i j : ℕ) (rawTest : Value) : String :=
  "suites[" ++ toString i ++ "].tests[" ++ toString j ++ "]" ++
    match rawTest.get? (.str "id") with
    | some id => " (" ++ id.text py ++ ")"
    | none => ""

/-- The error of a raw test that is not valid. -/
def testError (path : Path) (i : ℕ) (entry : Value × ℕ) : Option LoadError :=
  match checks.test entry.1 with
  | .ok _ => none
  | .error problems =>
      some ⟨Paths.text path, testPlace py i entry.2 entry.1, renderProblems problems⟩

/-- The suite with its valid tests, if it has any, and the errors of the others. -/
def salvageSuite (path : Path) (entry : Value × ℕ) :
    Except PyError (Option Value × List LoadError) :=
  match entry.1 with
  | .dict entries => do
      let rawTests ← Value.iterateOr (Value.lookup (.str "tests") entries)
      let good := rawTests.filter fun raw => (checks.test raw).isOk
      pure (if good.isEmpty then none
        else some (.dict (Value.setKey "tests" (.list good) entries)),
        rawTests.zipIdx.filterMap (testError py checks path entry.2))
  | _ => throw (.valueError (Paths.text path ++ ": suites[" ++ toString entry.2 ++
      "] must be a mapping"))

/-- Re-validate a failed document one test at a time. -/
def salvageDocument (path : Path) (raw : Value) :
    Except PyError (Option ActsDocument × List LoadError) :=
  match raw with
  | .dict entries => do
      let rawSuites ← Value.iterateOr (Value.lookup (.str "suites") entries)
      let parts ← rawSuites.zipIdx.mapM (salvageSuite py checks path)
      let errors := parts.flatMap fun part => part.2
      let kept := parts.filterMap fun part => part.1
      if errors.isEmpty then
        throw (.valueError (Paths.text path ++
          ": document is invalid and no individual test explains it; " ++
          "check the acts_version/spec_version envelope and suite headers"))
      -- every test was bad
      else if kept.isEmpty then pure (none, errors)
      else do
        let document ← parseDocument py checks path
          (.dict (Value.setKey "suites" (.list kept) entries))
        pure (some document, errors)
  | _ => throw (.valueError (Paths.text path ++ ": expected a mapping at the top level"))

/-- Validate a document, test by test where it fails and the load is lenient. -/
def validateDocument (strict : Bool) (path : Path) (raw : Value) :
    Except PyError (Option ActsDocument × List LoadError) :=
  match parseDocument py checks path raw with
  | .ok document => pure (some document, [])
  | .error e => if strict then throw e else salvageDocument py checks path raw

end Documents

section Suites

/-- What the load has so far, and where it met each id. -/
structure Loading where
  loaded : LoadedSuite := {}
  seenTests : Dict String LoadedTest := Dict.empty
  seenSuites : Dict String Path := Dict.empty

namespace Loading

/-- `_check_unique_test`, and the test is loaded. -/
def addTest (entry : LoadedTest) (s : Loading) : Except PyError Loading :=
  match s.seenTests.get? entry.id with
  | some prior => throw (.valueError (entry.source ++ ": duplicate test id " ++
      Text.repr entry.id ++ ", already defined in " ++ Paths.nameOf prior.source ++
      " (suite " ++ prior.suiteId ++
      "); report rows are keyed by test id, so one would overwrite the other"))
  | none => pure { s with
      seenTests := s.seenTests.set entry.id entry
      loaded := { s.loaded with tests := s.loaded.tests ++ [entry] } }

/-- `_check_unique_suite`. -/
def checkSuite (path : Path) (suite : Suite) (s : Loading) : Except PyError Loading :=
  match s.seenSuites.get? suite.id with
  | some prior => throw (.valueError (Paths.text path ++ ": duplicate suite id " ++
      Text.repr suite.id ++ ", already defined in " ++ Paths.nameOf (Paths.text prior)))
  | none => pure { s with seenSuites := s.seenSuites.set suite.id path }

/-- The tests of a suite, with where they come from. -/
def entriesOf (path : Path) (suite : Suite) : List LoadedTest :=
  suite.tests.map fun test => ⟨test, suite.id, suite.name, Paths.text path⟩

def addSuite (path : Path) (s : Loading) (suite : Suite) : Except PyError Loading := do
  let s ← checkSuite path suite s
  (entriesOf path suite).foldlM (fun s entry => addTest entry s) s

/-- What a document adds besides its tests. -/
def addSource (path : Path) (document : Option ActsDocument) (errors : List LoadError)
    (s : Loading) : Loading :=
  { s with loaded := { s.loaded with
      errors := s.loaded.errors ++ errors
      sources := s.loaded.sources ++ [Paths.text path]
      vars := s.loaded.vars.update
        ((document.bind fun d => d.vars).getD Dict.empty).entries } }

/-- The suites that a document contributes. -/
def suitesOf (document : Option ActsDocument) : List Suite :=
  (document.bind fun d => d.suites).getD []

end Loading

variable (py : Interpreter) (checks : Checks) (fs : FileSystem) (strict : Bool)

def loadDocument (s : Loading) (entry : Path × Value) : Except PyError Loading := do
  let (document, errors) ← validateDocument py checks strict entry.1 entry.2
  (Loading.suitesOf document).foldlM (Loading.addSuite entry.1)
    (s.addSource entry.1 document errors)

/-- Load a manifest and everything it includes, flattened. -/
def loadSuite (manifest : Path) : Except PyError LoadedSuite := do
  let documents ← resolveIncludes fs manifest
  let s ← documents.foldlM (loadDocument py checks strict) {}
  pure s.loaded

end Suites

end A2aItk.Acts.Loader
