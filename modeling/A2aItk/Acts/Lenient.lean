import A2aItk.Acts.Includes

/-!
# What a document keeps in a lenient load

The valid raw tests of a document are loaded and the others reported, in the order of the
file, whether the document is valid or is validated once more, test by test.
-/

namespace A2aItk.Acts.Loader

open Python
open Launcher (Path)
open Scenarios (Problem renderProblems)

/-- A test as it stands in its file. -/
structure RawTest where
  path : Path
  suite : List (Scalar × Value)
  suiteIndex : ℕ
  index : ℕ
  raw : Value

section Raw

variable (py : Interpreter) (checks : Checks)

def RawTest.valid (test : RawTest) : Bool := (checks.test test.raw).isOk

def RawTest.error? (test : RawTest) : Option LoadError :=
  testError py checks test.path test.suiteIndex (test.raw, test.index)

/-- The loaded test is what the validators make of the raw one, with its provenance. -/
def RawTest.Loads (test : RawTest) (loaded : LoadedTest) : Prop :=
  checks.test test.raw = .ok loaded.test ∧ loaded.source = Paths.text test.path ∧
    ∃ header, checks.header test.suite = .ok header ∧
      loaded.suiteId = header.id ∧ loaded.suiteName = header.name

/-- What a loop over an entry of a mapping goes through, where it can. -/
def loopItems (v : Option Value) : List Value := (Value.iterateOr v).toOption.getD []

def testsOfSuite (path : Path) (entry : Value × ℕ) : List RawTest :=
  match entry.1 with
  | .dict suite => (loopItems (Value.lookup (.str "tests") suite)).zipIdx.map fun test =>
      ⟨path, suite, entry.2, test.2, test.1⟩
  | _ => []

/-- The raw tests of a document, in its order. -/
def rawTests (document : Path × Value) : List RawTest :=
  (loopItems (document.2.get? (.str "suites"))).zipIdx.flatMap (testsOfSuite document.1)

/-- The document has tests, and all of them are bad. -/
def AllBad (document : Path × Value) : Prop :=
  rawTests document ≠ [] ∧ ∀ test ∈ rawTests document, test.valid checks = false

instance (document : Path × Value) : Decidable (AllBad checks document) :=
  inferInstanceAs (Decidable (_ ∧ _))

/-- The variables that a document declares. -/
def declaredVars (raw : Value) : Dict String String :=
  match raw with
  | .dict entries => (checks.documentVars py entries).toOption.join.getD Dict.empty
  | _ => Dict.empty

/-- The variables of the documents, where later files win. -/
def mergedVars (documents : List (Path × Value)) : Dict String String :=
  documents.foldl (fun vars document => vars.update (declaredVars py checks document.2).entries)
    Dict.empty

end Raw

section Validated

variable {py : Interpreter} {checks : Checks} {path : Path} {α : Type} {key other : String}
  {check : Value → Except (List Problem) α} {entries : List (Scalar × Value)}

theorem iterateOr_list (l : List Value) : Value.iterateOr (some (.list l)) = .ok l := by
  cases l <;> rfl

theorem required_setKey (w : Value) (h : key ≠ other) :
    required key check (Value.setKey other w entries) = required key check entries := by
  unfold required
  rw [Value.lookup_setKey_of_ne w entries h]

theorem optional_setKey (w : Value) (h : key ≠ other) :
    optional key check (Value.setKey other w entries) = optional key check entries := by
  unfold optional
  rw [Value.lookup_setKey_of_ne w entries h]

theorem header_setKey (w : Value) :
    checks.header (Value.setKey "tests" w entries) = checks.header entries := by
  unfold Checks.header
  rw [required_setKey w (by decide), required_setKey w (by decide)]

theorem valid_of_loads {test : RawTest} {loaded : LoadedTest} (h : test.Loads checks loaded) :
    test.valid checks = true := by
  rw [RawTest.valid, h.1]
  rfl

theorem error?_eq_none_iff {test : RawTest} :
    test.error? py checks = none ↔ test.valid checks = true := by
  unfold RawTest.error? testError RawTest.valid
  cases checks.test test.raw <;> simp [Except.isOk, Except.toBool]

/-- The tests of a suite are loaded from the raw tests that became them. -/
theorem loads_entriesOf {tests : List RawTest} {suite : Suite}
    (hheader : ∀ test ∈ tests, test.path = path ∧
      checks.header test.suite = .ok suite.toSuiteHeader)
    (htests : List.Forall₂ (fun raw test => checks.test raw = .ok test)
      (tests.map fun test => test.raw) suite.tests) :
    List.Forall₂ (RawTest.Loads checks) tests (Loading.entriesOf path suite) := by
  rw [List.forall₂_map_left_iff] at htests
  rw [Loading.entriesOf, List.forall₂_map_right_iff]
  refine ((List.forall₂_and_left _ _).mpr ⟨hheader, htests⟩).imp ?_
  rintro raw test ⟨⟨hpath, hheader⟩, htest⟩
  exact ⟨htest, hpath ▸ rfl, _, hheader, rfl, rfl⟩

theorem raw_testsOfSuite (i : ℕ) :
    (testsOfSuite path (.dict entries, i)).map (fun test => test.raw) =
      loopItems (Value.lookup (.str "tests") entries) := by
  unfold testsOfSuite
  rw [List.map_map]
  exact List.zipIdx_map_fst 0 _

theorem suite_of_mem_testsOfSuite {i : ℕ} {test : RawTest}
    (h : test ∈ testsOfSuite path (.dict entries, i)) :
    test.path = path ∧ test.suite = entries := by
  obtain ⟨_, -, rfl⟩ := List.mem_map.mp h
  exact ⟨rfl, rfl⟩

/-- A valid suite loads all of its raw tests. -/
theorem loads_of_suite {raw : Value} {suite : Suite} (h : checks.suite py raw = .ok suite) (i : ℕ) :
    List.Forall₂ (RawTest.Loads checks) (testsOfSuite path (raw, i))
      (Loading.entriesOf path suite) := by
  obtain ⟨entries, rawTests, rfl, hheader, hlookup, htests⟩ := suite_eq_ok h
  apply loads_entriesOf
  · intro test htest
    obtain ⟨hpath, hsuite⟩ := suite_of_mem_testsOfSuite htest
    exact ⟨hpath, hsuite ▸ hheader⟩
  · rw [raw_testsOfSuite, hlookup, loopItems, iterateOr_list]
    exact htests

theorem loads_of_suites {raws : List Value} {suites : List Suite}
    (h : List.Forall₂ (fun raw suite => checks.suite py raw = .ok suite) raws suites) (k : ℕ) :
    List.Forall₂ (RawTest.Loads checks) ((raws.zipIdx k).flatMap (testsOfSuite path))
      (suites.flatMap (Loading.entriesOf path)) := by
  induction h generalizing k with
  | nil => exact .nil
  | cons hsuite _ ih =>
      rw [List.zipIdx_cons, List.flatMap_cons, List.flatMap_cons]
      exact List.rel_append (loads_of_suite hsuite k) (ih (k + 1))

/-- What is left of a suite when its bad tests are taken out. -/
theorem salvageSuite_eq_ok {raw : Value} {i : ℕ} {part : Option Value × List LoadError}
    (h : salvageSuite py checks path (raw, i) = .ok part) :
    ∃ entries good, raw = .dict entries ∧
      good = ((testsOfSuite path (raw, i)).filter fun test => test.valid checks) ∧
      part.1 = (if good = [] then none else some (.dict
        (Value.setKey "tests" (.list (good.map fun test => test.raw)) entries))) ∧
      part.2 = (testsOfSuite path (raw, i)).filterMap (RawTest.error? py checks) := by
  cases raw with
  | dict entries =>
      obtain ⟨rawTests, hraw, hpart⟩ := bind_eq_ok_iff.mp h
      cases hpart
      have hitems : loopItems (Value.lookup (.str "tests") entries) = rawTests := by
        rw [loopItems, hraw]
        rfl
      have htests : (testsOfSuite path (.dict entries, i)) =
          rawTests.zipIdx.map fun test => ⟨path, entries, i, test.2, test.1⟩ := by
        rw [← hitems]
        rfl
      have hgood : ((testsOfSuite path (.dict entries, i)).filter fun test =>
            test.valid checks).map (fun test => test.raw) =
          rawTests.filter fun raw => (checks.test raw).isOk := by
        have hraws : (testsOfSuite path (.dict entries, i)).map (fun test => test.raw) =
            rawTests := (raw_testsOfSuite i).trans hitems
        rw [← hraws, List.filter_map]
        rfl
      refine ⟨entries, _, rfl, rfl, ?_, ?_⟩
      · rw [← hgood]
        simp only [List.isEmpty_iff, List.map_eq_nil_iff]
      · rw [htests, List.filterMap_map]
        rfl
  | list _ => cases h
  | scalar _ => cases h

/-- The suites that are kept load the valid raw tests, and the errors are those of the others. -/
theorem loads_of_salvaged {raws : List (Value × ℕ)} {parts : List (Option Value × List LoadError)}
    {suites : List Suite}
    (hparts : List.Forall₂ (fun entry part => salvageSuite py checks path entry = .ok part)
      raws parts)
    (hsuites : List.Forall₂ (fun raw suite => checks.suite py raw = .ok suite)
      (parts.filterMap fun part => part.1) suites) :
    List.Forall₂ (RawTest.Loads checks)
        ((raws.flatMap (testsOfSuite path)).filter fun test => test.valid checks)
        (suites.flatMap (Loading.entriesOf path)) ∧
      parts.flatMap (fun part => part.2) =
        (raws.flatMap (testsOfSuite path)).filterMap (RawTest.error? py checks) := by
  induction hparts generalizing suites with
  | nil =>
      cases hsuites
      exact ⟨.nil, rfl⟩
  | @cons entry part raws parts hpart _ ih =>
      obtain ⟨raw, i⟩ := entry
      obtain ⟨entries, good, rfl, rfl, hkept, herrors⟩ := salvageSuite_eq_ok hpart
      rw [List.flatMap_cons, List.flatMap_cons, List.filter_append, List.filterMap_append, herrors]
      by_cases hgood : ((testsOfSuite path (.dict entries, i)).filter
          fun test => test.valid checks) = []
      · rw [if_pos hgood] at hkept
        rw [List.filterMap_cons_none hkept] at hsuites
        obtain ⟨hloads, hrest⟩ := ih hsuites
        rw [hgood, hrest]
        exact ⟨hloads, rfl⟩
      · rw [if_neg hgood] at hkept
        rw [List.filterMap_cons_some hkept] at hsuites
        cases hsuites with
        | @cons _ suite _ suites hsuite hsuites =>
            obtain ⟨hloads, hrest⟩ := ih hsuites
            obtain ⟨entries', rawTests, hentries, hheader, hlookup, htests⟩ := suite_eq_ok hsuite
            cases hentries
            rw [header_setKey] at hheader
            rw [Value.lookup_setKey_self, Option.some.injEq, Value.list.injEq] at hlookup
            rw [hrest]
            refine ⟨List.rel_append (loads_entriesOf ?_ (hlookup ▸ htests)) hloads, rfl⟩
            intro test htest
            obtain ⟨hpath, hsuite⟩ := suite_of_mem_testsOfSuite (List.mem_filter.mp htest).1
            exact ⟨hpath, hsuite ▸ hheader⟩

variable {raw : Value} {document : ActsDocument}

theorem parseDocument_eq_ok (h : parseDocument py checks path raw = .ok document) :
    ∃ entries, raw = .dict entries ∧ checks.document py entries = .ok document := by
  cases raw with
  | dict entries =>
      change Scenarios.validated _ (checks.document py entries) = .ok document at h
      cases hmodel : checks.document py entries with
      | ok model =>
          rw [hmodel] at h
          cases h
          exact ⟨entries, rfl, hmodel⟩
      | error problems =>
          rw [hmodel] at h
          cases h
  | list _ => cases h
  | scalar _ => cases h

/-- The suites of a valid document are those of the raw one. -/
theorem suites_of_document {entries : List (Scalar × Value)}
    (h : checks.document py entries = .ok document) :
    List.Forall₂ (fun raw suite => checks.suite py raw = .ok suite)
      (loopItems (Value.lookup (.str "suites") entries)) (document.suites.getD []) := by
  have hsuites := (document_eq_ok h).2
  cases hdocument : document.suites with
  | none =>
      rw [hdocument] at hsuites
      have hnone := optional_eq_none_iff.mp hsuites
      cases hlookup : Value.lookup (.str "suites") entries with
      | none => exact .nil
      | some v =>
          have hnull := hnone v hlookup
          match v, hnull with
          | .scalar .null, _ => exact .nil
  | some suites =>
      rw [hdocument] at hsuites
      obtain ⟨v, hlookup, -, hv⟩ := optional_eq_some_iff.mp hsuites
      obtain ⟨raws, rfl, hraws⟩ := items_eq_ok_iff.mp hv
      rw [hlookup, loopItems, iterateOr_list]
      exact hraws

/-- A valid document loads all of its raw tests. -/
theorem loads_of_document (h : parseDocument py checks path raw = .ok document) :
    List.Forall₂ (RawTest.Loads checks) (rawTests (path, raw))
      ((document.suites.getD []).flatMap (Loading.entriesOf path)) := by
  obtain ⟨entries, rfl, hdocument⟩ := parseDocument_eq_ok h
  exact loads_of_suites (suites_of_document hdocument) 0

theorem vars_of_document {entries : List (Scalar × Value)}
    (h : checks.document py entries = .ok document) :
    document.vars.getD Dict.empty = declaredVars py checks (.dict entries) := by
  rw [declaredVars, (document_eq_ok h).1]
  rfl

theorem declaredVars_setKey (w : Value) {entries : List (Scalar × Value)} :
    declaredVars py checks (.dict (Value.setKey "suites" w entries)) =
      declaredVars py checks (.dict entries) := by
  change (optional "variables" (checks.strings py) _).toOption.join.getD _ = _
  rw [optional_setKey w (by decide)]
  rfl

/-- The variables that a document contributes. -/
def contributed (document : Option ActsDocument) : Dict String String :=
  (document.bind fun d => d.vars).getD Dict.empty

/-- A document is bad all over exactly where it has tests and loads none. -/
theorem allBad_iff {document : Path × Value} :
    AllBad checks document ↔ rawTests document ≠ [] ∧
      ((rawTests document).filter fun test => test.valid checks) = [] := by
  rw [AllBad, List.filter_eq_nil_iff]
  simp only [Bool.not_eq_true]

/-- Re-validated test by test, a document still loads the valid raw tests and reports the
others. -/
theorem salvageDocument_eq_ok {document : Option ActsDocument} {errors : List LoadError}
    (h : salvageDocument py checks path raw = .ok (document, errors)) :
    List.Forall₂ (RawTest.Loads checks)
        ((rawTests (path, raw)).filter fun test => test.valid checks)
        ((Loading.suitesOf document).flatMap (Loading.entriesOf path)) ∧
      errors = (rawTests (path, raw)).filterMap (RawTest.error? py checks) ∧
      contributed document =
        if AllBad checks (path, raw) then Dict.empty else declaredVars py checks raw := by
  cases raw with
  | dict entries =>
      obtain ⟨rawSuites, hraw, hrest⟩ := bind_eq_ok_iff.mp h
      obtain ⟨parts, hparts, hrest⟩ := bind_eq_ok_iff.mp hrest
      have hitems : rawTests (path, .dict entries) =
          rawSuites.zipIdx.flatMap (testsOfSuite path) := by
        have hsuites : loopItems (Value.lookup (.str "suites") entries) = rawSuites := by
          rw [loopItems, hraw]
          rfl
        rw [← hsuites]
        rfl
      rw [mapM_eq_ok_iff] at hparts
      rw [hitems]
      dsimp only at hrest
      split at hrest
      · cases hrest
      · rename_i herrors
        split at hrest
        · rename_i hkept
          rw [List.isEmpty_iff] at hkept
          cases hrest
          have hnone : List.Forall₂ (fun raw suite => checks.suite py raw = .ok suite)
              (parts.filterMap fun part => part.1) [] := by
            rw [hkept]
            exact .nil
          obtain ⟨hloads, herrors'⟩ := loads_of_salvaged hparts hnone
          refine ⟨hloads, herrors', ?_⟩
          have hbad : AllBad checks (path, .dict entries) := by
            rw [allBad_iff, hitems]
            refine ⟨?_, List.forall₂_nil_right_iff.mp hloads⟩
            rintro hnone
            rw [hnone] at herrors'
            exact herrors (List.isEmpty_iff.mpr herrors')
          rw [if_pos hbad]
          rfl
        · rename_i hkept
          obtain ⟨model, hmodel, hrest⟩ := bind_eq_ok_iff.mp hrest
          cases hrest
          obtain ⟨entries', hentries, hdocument⟩ := parseDocument_eq_ok hmodel
          cases hentries
          have hsuites := suites_of_document hdocument
          rw [Value.lookup_setKey_self, loopItems, iterateOr_list] at hsuites
          obtain ⟨hloads, herrors'⟩ := loads_of_salvaged hparts hsuites
          refine ⟨hloads, herrors', ?_⟩
          have hgood : ¬ AllBad checks (path, .dict entries) := by
            rw [allBad_iff, hitems]
            rintro ⟨-, hnone⟩
            rw [hnone, List.forall₂_nil_left_iff, List.flatMap_eq_nil_iff] at hloads
            cases hsuites' : model.suites.getD [] with
            | nil =>
                rw [hsuites', List.forall₂_nil_right_iff] at hsuites
                exact hkept (List.isEmpty_iff.mpr hsuites)
            | cons suite rest =>
                have hmem : suite ∈ model.suites.getD [] := by simp [hsuites']
                exact suite.testsNonempty (List.map_eq_nil_iff.mp (hloads suite hmem))
          rw [if_neg hgood]
          calc contributed (some model)
              = declaredVars py checks (.dict (Value.setKey "suites" _ entries)) :=
                vars_of_document hdocument
            _ = declaredVars py checks (.dict entries) := declaredVars_setKey _
  | list _ => cases h
  | scalar _ => cases h

/-- What a lenient validation returns loads the valid raw tests, reports the others, and
contributes its variables unless all of its tests are bad. -/
theorem validateDocument_lenient {document : Option ActsDocument} {errors : List LoadError}
    (h : validateDocument py checks false path raw = .ok (document, errors)) :
    List.Forall₂ (RawTest.Loads checks)
        ((rawTests (path, raw)).filter fun test => test.valid checks)
        ((Loading.suitesOf document).flatMap (Loading.entriesOf path)) ∧
      errors = (rawTests (path, raw)).filterMap (RawTest.error? py checks) ∧
      contributed document =
        if AllBad checks (path, raw) then Dict.empty else declaredVars py checks raw := by
  unfold validateDocument at h
  cases hparse : parseDocument py checks path raw with
  | ok parsed =>
      rw [hparse] at h
      cases h
      have hloads := loads_of_document hparse
      have hvalid : ∀ test ∈ rawTests (path, raw), test.valid checks = true := by
        intro test htest
        obtain ⟨loaded, -, hloaded⟩ := exists_left_of_mem hloads.flip htest
        exact valid_of_loads hloaded
      refine ⟨?_, ?_, ?_⟩
      · rw [List.filter_eq_self.mpr hvalid]
        exact hloads
      · rw [eq_comm, List.filterMap_eq_nil_iff]
        exact fun test htest => error?_eq_none_iff.mpr (hvalid test htest)
      · have hgood : ¬ AllBad checks (path, raw) := by
          rintro ⟨hne, hbad⟩
          obtain ⟨test, htest⟩ := List.exists_mem_of_ne_nil _ hne
          exact absurd (hbad test htest) (by simp [hvalid test htest])
        obtain ⟨entries, rfl, hdocument⟩ := parseDocument_eq_ok hparse
        rw [if_neg hgood]
        exact vars_of_document hdocument
  | error e =>
      rw [hparse] at h
      exact salvageDocument_eq_ok h

end Validated

end A2aItk.Acts.Loader
