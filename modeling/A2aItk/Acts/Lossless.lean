import A2aItk.Acts.Lenient
import A2aItk.Acts.Reruns

/-!
# What a load keeps

Every raw test of every file that a manifest reaches is a loaded test or, in a lenient
load, an error, in the order of the files. A file whose every test is bad contributes its
errors and not its variables.
-/

namespace A2aItk.Acts.Loader

open Python
open Launcher (Path)
open Scenarios (Problem)

section Loads

variable {py : Interpreter} {checks : Checks} {fs : FileSystem}

/-- The load went on by the tests of these suites. -/
structure Adds (s s' : Loading) (tests : List LoadedTest) (suites : List Suite) : Prop where
  loaded : s'.loaded = { s.loaded with tests := s.loaded.tests ++ tests }
  seenTests : s'.seenTests.keys = s.seenTests.keys ++ tests.map LoadedTest.id
  seenSuites : s'.seenSuites.keys = s.seenSuites.keys ++ suites.map fun suite => suite.id

namespace Adds

/-- Nothing is added. -/
theorem refl (s : Loading) : Adds s s [] [] := by
  constructor <;> simp

/-- What two steps add. -/
theorem trans {s t u : Loading} {tests tests' : List LoadedTest} {suites suites' : List Suite}
    (h : Adds s t tests suites) (h' : Adds t u tests' suites') :
    Adds s u (tests ++ tests') (suites ++ suites') := by
  constructor
  · rw [h'.loaded, h.loaded, List.append_assoc]
  · rw [h'.seenTests, h.seenTests, List.map_append, List.append_assoc]
  · rw [h'.seenSuites, h.seenSuites, List.map_append, List.append_assoc]

end Adds

variable {s s' : Loading} {path : Path}

/-- A test is added to the tests. -/
theorem adds_addTest {entry : LoadedTest} (h : s.addTest entry = .ok s') :
    Adds s s' [entry] [] := by
  unfold Loading.addTest at h
  split at h
  · cases h
  · rename_i hnew
    cases h
    refine ⟨rfl, ?_, (List.append_nil _).symm⟩
    exact Dict.keys_set_of_get?_eq_none entry hnew

/-- A suite that passes the checks is added to the suites. -/
theorem adds_checkSuite {suite : Suite} (h : s.checkSuite path suite = .ok s') :
    Adds s s' [] [suite] := by
  unfold Loading.checkSuite at h
  split at h
  · cases h
  · rename_i hnew
    cases h
    refine ⟨?_, (List.append_nil _).symm, Dict.keys_set_of_get?_eq_none path hnew⟩
    simp

/-- A suite is added with the tests it has. -/
theorem adds_addSuite {suite : Suite} (h : Loading.addSuite path s suite = .ok s') :
    Adds s s' (Loading.entriesOf path suite) [suite] := by
  obtain ⟨t, hcheck, htests⟩ := bind_eq_ok_iff.mp h
  have hadds : Adds t s' (Loading.entriesOf path suite) [] := by
    apply foldlM_induction (P := fun done u => Adds t u done []) (.refl t) ?_ htests
    intro done entry u u' hdone hentry
    exact hdone.trans (adds_addTest hentry)
  exact (adds_checkSuite hcheck).trans hadds

/-- All suites of a file are added in order, by induction on them. -/
theorem adds_addSuites {suites : List Suite}
    (h : suites.foldlM (Loading.addSuite path) s = .ok s') :
    Adds s s' (suites.flatMap (Loading.entriesOf path)) suites := by
  apply foldlM_induction
    (P := fun done u => Adds s u (done.flatMap (Loading.entriesOf path)) done) (.refl s) ?_ h
  intro done suite u u' hdone hsuite
  rw [List.flatMap_append, List.flatMap_singleton]
  exact hdone.trans (adds_addSuite hsuite)

/-- What a load holds of the documents: each raw test once, loaded or as an error; the
variables of the documents that are not bad all over; and no id twice. -/
structure Accounted (py : Interpreter) (checks : Checks) (documents : List (Path × Value))
    (loaded : LoadedSuite) : Prop where
  tests : List.Forall₂ (RawTest.Loads checks)
    ((documents.flatMap rawTests).filter fun test => test.valid checks) loaded.tests
  errors : loaded.errors = (documents.flatMap rawTests).filterMap (RawTest.error? py checks)
  vars : loaded.vars =
    mergedVars py checks (documents.filter fun document => ¬ AllBad checks document)
  sources : loaded.sources = documents.map fun document => Paths.text document.1
  testIds : (loaded.tests.map LoadedTest.id).Nodup
  suiteIds : ∃ suites : List (Path × Suite),
    loaded.tests = suites.flatMap (fun suite => Loading.entriesOf suite.1 suite.2) ∧
      (suites.map fun suite => suite.2.id).Nodup

/-- What the load has met: the ids of what it holds. -/
structure Met (s : Loading) (suites : List (Path × Suite)) : Prop where
  tests : s.loaded.tests = suites.flatMap fun suite => Loading.entriesOf suite.1 suite.2
  testIds : s.seenTests.keys = s.loaded.tests.map LoadedTest.id
  suiteIds : s.seenSuites.keys = suites.map fun suite => suite.2.id

/-- One document, in a lenient load. -/
theorem accounted_loadDocument {done : List (Path × Value)} {entry : Path × Value}
    {suites : List (Path × Suite)} (hdone : Accounted py checks done s.loaded)
    (hmet : Met s suites) (h : loadDocument py checks false s entry = .ok s') :
    Accounted py checks (done ++ [entry]) s'.loaded ∧ ∃ suites, Met s' suites := by
  obtain ⟨path, raw⟩ := entry
  obtain ⟨⟨document, errors⟩, hvalidate, hsuites⟩ := bind_eq_ok_iff.mp h
  obtain ⟨hloads, herrors, hvars⟩ := validateDocument_lenient hvalidate
  have hadds := adds_addSuites hsuites
  have htests : s'.loaded.tests = s.loaded.tests ++
      (Loading.suitesOf document).flatMap (Loading.entriesOf path) := by
    rw [hadds.loaded]
    rfl
  have hmet' : Met s' (suites ++ (Loading.suitesOf document).map fun suite => (path, suite)) := by
    constructor
    · rw [htests, hmet.tests, List.flatMap_append, List.flatMap_map]
    · rw [hadds.seenTests, htests, List.map_append, ← hmet.testIds]
      rfl
    · rw [hadds.seenSuites, List.map_append, ← hmet.suiteIds, List.map_map]
      rfl
  refine ⟨⟨?_, ?_, ?_, ?_, ?_, ?_⟩, _, hmet'⟩
  · rw [htests, List.flatMap_append, List.flatMap_singleton, List.filter_append]
    exact List.rel_append hdone.tests hloads
  · rw [hadds.loaded, List.flatMap_append, List.flatMap_singleton, List.filterMap_append,
      ← hdone.errors, ← herrors]
    rfl
  · rw [hadds.loaded, mergedVars, List.filter_append, List.foldl_append, ← mergedVars,
      ← hdone.vars]
    change s.loaded.vars.update (contributed document).entries = _
    rw [hvars]
    by_cases hbad : AllBad checks (path, raw)
    · simp [hbad, Dict.update, Dict.empty]
    · simp [hbad]
  · rw [hadds.loaded, List.map_append, ← hdone.sources]
    rfl
  · rw [← hmet'.testIds]
    exact s'.seenTests.distinct
  · exact ⟨_, hmet'.tests, hmet'.suiteIds ▸ s'.seenSuites.distinct⟩

/-- Of no document, nothing is kept. -/
theorem accounted_initial : Accounted py checks [] ({} : Loading).loaded where
  tests := .nil
  errors := rfl
  vars := rfl
  sources := rfl
  testIds := List.nodup_nil
  suiteIds := ⟨[], rfl, List.nodup_nil⟩

/-- What is kept of the documents is accounted for, by induction on them. -/
theorem accounted_foldlM {documents : List (Path × Value)}
    (h : documents.foldlM (loadDocument py checks false) {} = .ok s) :
    Accounted py checks documents s.loaded := by
  have hrun := foldlM_induction
    (P := fun done s => Accounted py checks done s.loaded ∧ ∃ suites, Met s suites)
    ⟨accounted_initial, [], rfl, rfl, rfl⟩
    (fun done entry s s' hdone hentry => by
      obtain ⟨hdone, suites, hmet⟩ := hdone
      exact accounted_loadDocument hdone hmet hentry) h
  exact hrun.1

/-- A document that a strict load takes is the same to a lenient one. -/
theorem loadDocument_lenient {entry : Path × Value}
    (h : loadDocument py checks true s entry = .ok s') :
    loadDocument py checks false s entry = .ok s' := by
  unfold loadDocument validateDocument at h ⊢
  cases hparse : parseDocument py checks entry.1 entry.2 with
  | ok document =>
      rw [hparse] at h
      exact h
  | error e =>
      rw [hparse] at h
      cases h

/-- Where nothing is refused, both loaders do the same. -/
theorem foldlM_lenient {documents : List (Path × Value)}
    (h : documents.foldlM (loadDocument py checks true) s = .ok s') :
    documents.foldlM (loadDocument py checks false) s = .ok s' := by
  apply foldlM_induction
    (P := fun done t => done.foldlM (loadDocument py checks false) s = .ok t) rfl ?_ h
  intro done entry t t' hdone hentry
  rw [List.foldlM_append, hdone, ok_bind, List.foldlM_cons, loadDocument_lenient hentry]
  rfl

/-- The documents of a manifest: the files it reaches, each once, with their contents. -/
structure Documents (fs : FileSystem) (manifest : Path) (documents : List (Path × Value)) :
    Prop where
  walk : resolveIncludes fs manifest = .ok documents
  nodup : (documents.map Prod.fst).Nodup
  mem_iff : ∀ path, path ∈ documents.map Prod.fst ↔
    Reached fs (fs.resolve manifest) path
  contents : ∀ document ∈ documents, readMapping fs document.1 = .ok document.2

/-- The documents are those the walk has read. -/
theorem documents_of_resolveIncludes {manifest : Path} {documents : List (Path × Value)}
    (h : resolveIncludes fs manifest = .ok documents) : Documents fs manifest documents := by
  have hwalked := reached_of_resolveIncludes h
  refine ⟨h, hwalked.nodup, fun path => hwalked.mem_iff, ?_⟩
  intro document hdocument
  obtain ⟨-, included, hvisit, -⟩ := hwalked.visited document hdocument
  obtain ⟨raw, hraw, hrest⟩ := bind_eq_ok_iff.mp hvisit
  obtain ⟨included', -, hpair⟩ := bind_eq_ok_iff.mp hrest
  cases hpair
  exact hraw

/-- A lenient load that returns accounts for every raw test of every document the manifest
reaches, and where a strict load succeeds the lenient one has its result. -/
theorem lenient_load_accounts (py : Interpreter) (checks : Checks) (fs : FileSystem)
    (manifest : Path) :
    (∀ loaded, loadSuite py checks fs false manifest = .ok loaded →
      ∃ documents, Documents fs manifest documents ∧ Accounted py checks documents loaded) ∧
    ∀ loaded, loadSuite py checks fs true manifest = .ok loaded →
      loadSuite py checks fs false manifest = .ok loaded := by
  constructor
  · intro loaded h
    obtain ⟨documents, hdocuments, hrest⟩ := bind_eq_ok_iff.mp h
    obtain ⟨s, hs, hloaded⟩ := bind_eq_ok_iff.mp hrest
    cases hloaded
    exact ⟨documents, documents_of_resolveIncludes hdocuments, accounted_foldlM hs⟩
  · intro loaded h
    obtain ⟨documents, hdocuments, hrest⟩ := bind_eq_ok_iff.mp h
    obtain ⟨s, hs, hloaded⟩ := bind_eq_ok_iff.mp hrest
    exact bind_eq_ok_iff.mpr ⟨documents, hdocuments,
      bind_eq_ok_iff.mpr ⟨s, foldlM_lenient hs, hloaded⟩⟩

/-- The guarded test as a file has it. -/
def guardedRaw : Value :=
  .object [("id", .str "CORE-CAP-002"),
    ("name", .str "an agent without streaming refuses to stream"), ("level", .str "must"),
    ("preconditions", .object [("capabilities", .object [("streaming", .bool false)]),
      ("authentication", .bool true)]),
    ("steps", .list [.object [("id", .str "read"), ("operation", .str "get_task")]])]

/-- The validation, for files whose tests are the guarded one or no mapping. -/
def guardedChecks : Checks where
  test raw := if raw.eq guardedRaw then .ok guardedTest
    else .error [⟨[], "Input should be a valid dictionary or instance of Test"⟩]
  metadata _ := .ok ()
  text
    | .str s => some s
    | _ => none

/-- A suite with these tests. -/
def suiteOf (id : String) (tests : List Value) : Value :=
  .object [("id", .str id), ("name", .str id), ("tests", .list tests)]

/-- A file with its versions. -/
def fileOf (fields : List (String × Value)) : Value :=
  .object (("acts_version", .str "1.0") :: ("spec_version", .str "1.0") :: fields)

/-- A manifest that declares a variable and a suite of its own. -/
def manifestRaw (tests : List Value) : Value :=
  fileOf [("include", .list [.str "core.acts.yaml"]),
    ("variables", .object [("HOST", .str "agent")]), ("suites", .list [suiteOf "own" tests])]

/-- The file that is included. -/
def coreRaw (tests : List Value) : Value := fileOf [("suites", .list [suiteOf "core" tests])]

/-- Where the manifest is. -/
def manifestPath : Path := ["corpus", "suite.acts.yaml"]

/-- Where the included file is. -/
def corePath : Path := ["corpus", "core.acts.yaml"]

/-- The manifest and the file it includes. -/
def twoFiles (own core : List Value) : FileSystem where
  files := [manifestPath, corePath]
  resolve path := path
  parsed path := .ok (if path = manifestPath then manifestRaw own else coreRaw core)

/-- Both are read, the manifest first. -/
theorem resolveIncludes_twoFiles (own core : List Value) :
    resolveIncludes (twoFiles own core) manifestPath =
      .ok [(manifestPath, manifestRaw own), (corePath, coreRaw core)] := by
  have hmanifest : visit (twoFiles own core) ["corpus"] manifestPath =
      .ok (manifestRaw own, [corePath]) := rfl
  have hcore : visit (twoFiles own core) ["corpus"] corePath = .ok (coreRaw core, []) := rfl
  have hnew : corePath ∉ [(manifestPath, manifestRaw own)].map Prod.fst := by
    simp [corePath, manifestPath]
  calc resolveIncludes (twoFiles own core) manifestPath
      = walk (twoFiles own core) ["corpus"] [manifestPath] [] := rfl
    _ = walk (twoFiles own core) ["corpus"] [corePath] [(manifestPath, manifestRaw own)] :=
        walk_of_visit List.not_mem_nil hmanifest
    _ = walk (twoFiles own core) ["corpus"] []
          [(manifestPath, manifestRaw own), (corePath, coreRaw core)] :=
        walk_of_visit hnew hcore
    _ = .ok [(manifestPath, manifestRaw own), (corePath, coreRaw core)] := by
        rw [walk, pure_eq_ok]

/-- Two files are loaded one after the other. -/
theorem loadSuite_twoFiles (own core : List Value) (strict : Bool) :
    loadSuite .plain guardedChecks (twoFiles own core) strict manifestPath =
      (do
        let s ← [(manifestPath, manifestRaw own), (corePath, coreRaw core)].foldlM
          (loadDocument .plain guardedChecks strict) {}
        pure s.loaded) := by
  rw [loadSuite, resolveIncludes_twoFiles, ok_bind]

/-- A test that is no mapping, and its error. -/
def pendingTest : Value := .str "pending"

/-- The error of a test that is no mapping. -/
def pendingError (source place : String) : LoadError :=
  ⟨source, place, "<root>: Input should be a valid dictionary or instance of Test"⟩

/-- Of a manifest with a good and a bad test, and a file with a bad one. -/
def mixedLoad : LoadedSuite where
  tests := [⟨guardedTest, "own", "own", "/corpus/suite.acts.yaml"⟩]
  vars := Dict.ofList [("HOST", "agent")]
  sources := ["/corpus/suite.acts.yaml", "/corpus/core.acts.yaml"]
  errors := [pendingError "/corpus/suite.acts.yaml" "suites[0].tests[0]",
    pendingError "/corpus/core.acts.yaml" "suites[0].tests[0]"]

theorem mixed_load_accounts :
    ∃ documents, Documents (twoFiles [pendingTest, guardedRaw] [pendingTest]) manifestPath
      documents ∧ Accounted .plain guardedChecks documents mixedLoad := by
  apply (lenient_load_accounts .plain guardedChecks
    (twoFiles [pendingTest, guardedRaw] [pendingTest]) manifestPath).1
  rw [loadSuite_twoFiles]
  rfl

/-- Where every test of a manifest is bad, its variables are lost with them. -/
theorem bad_manifest_loses_variables :
    ∃ documents loaded,
      Documents (twoFiles [pendingTest] [guardedRaw]) manifestPath documents ∧
      loadSuite .plain guardedChecks (twoFiles [pendingTest] [guardedRaw]) false
        manifestPath = .ok loaded ∧
      loaded.vars.get? "HOST" = none ∧
      (mergedVars .plain guardedChecks documents).get? "HOST" = some "agent" := by
  have hdocuments := resolveIncludes_twoFiles [pendingTest] [guardedRaw]
  rw [loadSuite_twoFiles]
  exact ⟨_, _, documents_of_resolveIncludes hdocuments, rfl, rfl, rfl⟩

end Loads

end A2aItk.Acts.Loader
