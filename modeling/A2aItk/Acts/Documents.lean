import A2aItk.Acts.Corpus
import A2aItk.Python.Validation
import A2aItk.Scenarios.Loader

/-!
# ACTS documents

`acts/schema.py`: one file, which includes others, declares suites of tests, or both, and
how a mapping is validated against it.

## Implementation notes

The validations of a test and of the metadata are parameters, as is the text that a
field declared `str` takes.
-/

namespace A2aItk.Acts

open Python Validation
open Scenarios (Problem)

/-- What a suite says of itself. -/
structure SuiteHeader where
  id : String
  name : String
  idNonempty : id ≠ ""

/-- A named group of tests, as the validators accept it. -/
structure Suite extends SuiteHeader where
  tests : List Test
  testsNonempty : tests ≠ []
  testIdsAreUnique : (tests.map fun test => test.id).Nodup

/-- What one file declares. -/
structure DocumentFields where
  vars : Option (Dict String String) := none
  includes : Option (List String) := none
  suites : Option (List Suite) := none

/-- One file, as the validators accept it. -/
structure ActsDocument extends DocumentFields where
  declaresSomething : includes.getD [] ≠ [] ∨ suites.getD [] ≠ []
  suiteIdsAreUnique : ((suites.getD []).map fun suite => suite.id).Nodup

/-- What the validation takes from the library and from the models around it. -/
structure Checks where
  /-- `Test.model_validate`. -/
  test : Value → Except (List Problem) Test
  /-- `Metadata.model_validate`. -/
  metadata : Value → Except (List Problem) Unit
  /-- The text a field declared `str` takes: text, and binary data that decodes. -/
  text : Scalar → Option String

section Fields

variable {α : Type}

/-- Problems inside a part of the data. -/
def under (key : String) (outcome : Except (List Problem) α) : Except (List Problem) α :=
  outcome.mapError fun problems => problems.map fun p => { p with loc := key :: p.loc }

/-- A field that has to be there. -/
def required (key : String) (check : Value → Except (List Problem) α)
    (entries : List (Scalar × Value)) : Except (List Problem) α :=
  match Value.lookup (.str key) entries with
  | some v => under key (check v)
  | none => .error [⟨[key], "Field required"⟩]

/-- A field whose default is `None`. -/
def optional (key : String) (check : Value → Except (List Problem) α)
    (entries : List (Scalar × Value)) : Except (List Problem) (Option α) :=
  match Value.lookup (.str key) entries with
  | some v => if v.isNull then .ok none else under key (some <$> check v)
  | none => .ok none

/-- A field declared as a list. -/
def items (check : Value → Except (List Problem) α) : Value → Except (List Problem) (List α)
  | .list l => collect (l.zipIdx.map fun entry => under (toString entry.2) (check entry.1))
  | _ => .error [⟨[], "Input should be a valid list"⟩]

/-- A list of at least one item. -/
def nonemptyItems (check : Value → Except (List Problem) α) (v : Value) :
    Except (List Problem) { l : List α // l ≠ [] } := do
  match ← items check v with
  | [] => throw [⟨[], "List should have at least 1 item after validation, not 0"⟩]
  | a :: rest => pure ⟨a :: rest, List.cons_ne_nil a rest⟩

/-- `extra='forbid'`. -/
def extras (py : Interpreter) (fields : List String) (entries : List (Scalar × Value)) :
    Except (List Problem) Unit :=
  match entries.filter fun entry => !fields.any fun name => entry.1.eq (.str name) with
  | [] => pure ()
  | more => throw (more.map fun entry => ⟨[entry.1.text py],
      match entry.1 with
      | .str _ => "Extra inputs are not permitted"
      | _ => "Keys should be strings"⟩)

end Fields

namespace Checks

variable (py : Interpreter) (checks : Checks)

/-- A field declared `str`. -/
def string : Value → Except (List Problem) String
  | .scalar s =>
      match checks.text s with
      | some text => pure text
      | none => throw [⟨[], "Input should be a valid string"⟩]
  | _ => throw [⟨[], "Input should be a valid string"⟩]

/-- A text that is not empty. -/
def nonemptyString (v : Value) : Except (List Problem) { s : String // s ≠ "" } := do
  let s ← checks.string v
  if h : s ≠ "" then pure ⟨s, h⟩
  else throw [⟨[], "String should have at least 1 character"⟩]

/-- A field declared `dict[str, str]`. -/
def strings : Value → Except (List Problem) (Dict String String)
  | .dict entries =>
      Dict.ofList <$> collect (entries.map fun entry =>
        both (under (entry.1.text py) (under "[key]" (checks.string (.scalar entry.1))))
          (under (entry.1.text py) (checks.string entry.2)))
  | _ => throw [⟨[], "Input should be a valid dictionary"⟩]

/-- The fields a suite is named by. -/
def header (entries : List (Scalar × Value)) : Except (List Problem) SuiteHeader :=
  (fun r => ⟨r.1.1, r.2, r.1.2⟩) <$>
    both (required "id" checks.nonemptyString entries) (required "name" checks.string entries)

/-- The fields a suite may have. -/
def suiteFields : List String := ["id", "name", "description", "tags", "tests"]

/-- The fields of a suite that nothing here reads. -/
def suiteRest (entries : List (Scalar × Value)) : Except (List Problem) Unit :=
  (fun _ => ()) <$> both (optional "description" checks.string entries)
    (optional "tags" (items checks.string) entries)

/-- The tests of a suite, of which there is one at least. -/
def suiteTests (entries : List (Scalar × Value)) :
    Except (List Problem) { l : List Test // l ≠ [] } :=
  required "tests" (nonemptyItems checks.test) entries

/-- `_test_ids_are_unique`. -/
def checkedSuite (header : SuiteHeader) (tests : { l : List Test // l ≠ [] }) :
    Except (List Problem) Suite :=
  match h : firstRepeat (tests.1.map fun test => test.id) with
  | some id => throw [⟨[], "Value error, duplicate test id " ++ Text.repr id ++ " in suite " ++
      Text.repr header.id⟩]
  | none => pure ⟨header, tests.1, tests.2, firstRepeat_eq_none_iff.mp h⟩

/-- `Suite.model_validate`. -/
def suite : Value → Except (List Problem) Suite
  | .dict entries => do
      let fields ← both (checks.header entries) (both (checks.suiteRest entries)
        (both (checks.suiteTests entries) (extras py suiteFields entries)))
      checkedSuite fields.1 fields.2.2.1
  | _ => throw [⟨[], "Input should be a valid dictionary or instance of Suite"⟩]

/-- The fields a document may have. -/
def documentFields : List String :=
  ["acts_version", "spec_version", "spec_ref", "metadata", "variables", "include", "suites"]

/-- The fields of a document that nothing here reads. -/
def envelope (entries : List (Scalar × Value)) : Except (List Problem) Unit :=
  (fun _ => ()) <$> both (required "acts_version" checks.string entries)
    (both (required "spec_version" checks.string entries)
      (both (optional "spec_ref" checks.string entries)
        (optional "metadata" checks.metadata entries)))

/-- The variables of a document. -/
def documentVars (entries : List (Scalar × Value)) :
    Except (List Problem) (Option (Dict String String)) :=
  optional "variables" (checks.strings py) entries

/-- The files a document includes. -/
def documentIncludes (entries : List (Scalar × Value)) :
    Except (List Problem) (Option (List String)) :=
  optional "include" (items checks.string) entries

/-- The suites of a document. -/
def documentSuites (entries : List (Scalar × Value)) :
    Except (List Problem) (Option (List Suite)) :=
  optional "suites" (items (checks.suite py)) entries

/-- `_declares_something` and `_suite_ids_are_unique`. -/
def checkedDocument (fields : DocumentFields) : Except (List Problem) ActsDocument :=
  if hdeclares : fields.includes.getD [] ≠ [] ∨ fields.suites.getD [] ≠ [] then
    match h : firstRepeat ((fields.suites.getD []).map fun suite => suite.id) with
    | some id => throw [⟨[], "Value error, duplicate suite id " ++ Text.repr id⟩]
    | none => pure ⟨fields, hdeclares, firstRepeat_eq_none_iff.mp h⟩
  else throw [⟨[], "Value error, needs " ++
    "`include` or `suites`; a document with neither contributes no tests"⟩]

/-- `ActsDocument.model_validate` of a mapping. -/
def document (entries : List (Scalar × Value)) : Except (List Problem) ActsDocument := do
  let fields ← both (checks.envelope entries) (both (checks.documentVars py entries)
    (both (checks.documentIncludes entries) (both (checks.documentSuites py entries)
      (extras py documentFields entries))))
  checkedDocument
    { vars := fields.2.1, includes := fields.2.2.1, suites := fields.2.2.2.1 }

end Checks

section Validated

variable {py : Interpreter} {checks : Checks} {α : Type} {key : String}
  {check : Value → Except (List Problem) α} {entries : List (Scalar × Value)}

theorem under_eq_ok_iff {outcome : Except (List Problem) α} {a : α} :
    under key outcome = .ok a ↔ outcome = .ok a :=
  mapError_eq_ok_iff

theorem required_eq_ok_iff {a : α} :
    required key check entries = .ok a ↔
      ∃ v, Value.lookup (.str key) entries = some v ∧ check v = .ok a := by
  unfold required
  cases Value.lookup (.str key) entries with
  | none => simp
  | some v => simp [under_eq_ok_iff]

/-- A field that is set and not `None` was validated. -/
theorem optional_eq_some_iff {a : α} :
    optional key check entries = .ok (some a) ↔
      ∃ v, Value.lookup (.str key) entries = some v ∧ v.isNull = false ∧ check v = .ok a := by
  unfold optional
  cases Value.lookup (.str key) entries with
  | none => simp
  | some v =>
      cases hnull : v.isNull with
      | true => simp [hnull]
      | false => simp [hnull, under_eq_ok_iff, map_eq_ok_iff]

theorem optional_eq_none_iff :
    optional key check entries = .ok none ↔
      ∀ v, Value.lookup (.str key) entries = some v → v.isNull = true := by
  unfold optional
  cases Value.lookup (.str key) entries with
  | none => simp
  | some v =>
      cases hnull : v.isNull with
      | true => simp [hnull]
      | false => simp [hnull, under_eq_ok_iff, map_eq_ok_iff]

/-- A list is valid when each of its items is. -/
theorem items_eq_ok_iff {v : Value} {r : List α} :
    items check v = .ok r ↔
      ∃ l, v = .list l ∧ List.Forall₂ (fun item a => check item = .ok a) l r := by
  cases v with
  | list l =>
      have hzip : List.Forall₂ (fun (entry : Value × ℕ) a => check entry.1 = .ok a) l.zipIdx r ↔
          List.Forall₂ (fun item a => check item = .ok a) l r := by
        conv_rhs => rw [← List.zipIdx_map_fst 0 l]
        rw [List.forall₂_map_left_iff]
      simp only [items, collect_eq_ok_iff, List.forall₂_map_left_iff, under_eq_ok_iff, hzip]
      simp
  | dict _ => simp [items]
  | scalar _ => simp [items]

theorem nonemptyItems_eq_ok_iff {v : Value} {r : { l : List α // l ≠ [] }} :
    nonemptyItems check v = .ok r ↔ items check v = .ok r.1 := by
  obtain ⟨l, hl⟩ := r
  unfold nonemptyItems
  rw [bind_eq_ok_iff]
  constructor
  · rintro ⟨items, hitems, h⟩
    cases items with
    | nil => cases h
    | cons a rest =>
        cases h
        exact hitems
  · intro h
    refine ⟨l, h, ?_⟩
    cases l with
    | nil => exact absurd rfl hl
    | cons a rest => rfl

/-- A valid suite takes its header and, in order, its tests from the raw one. -/
theorem suite_eq_ok {v : Value} {suite : Suite} (h : checks.suite py v = .ok suite) :
    ∃ entries rawTests, v = .dict entries ∧
      checks.header entries = .ok suite.toSuiteHeader ∧
      Value.lookup (.str "tests") entries = some (.list rawTests) ∧
      List.Forall₂ (fun raw test => checks.test raw = .ok test) rawTests suite.tests := by
  cases v with
  | dict entries =>
      obtain ⟨⟨header, rest, tests, extra⟩, hfields, hchecked⟩ := bind_eq_ok_iff.mp h
      obtain ⟨hheader, hmore⟩ := both_eq_ok_iff.mp hfields
      obtain ⟨-, hmore⟩ := both_eq_ok_iff.mp hmore
      obtain ⟨htests, -⟩ := both_eq_ok_iff.mp hmore
      obtain ⟨v, hlookup, hv⟩ := required_eq_ok_iff.mp htests
      obtain ⟨rawTests, rfl, hraw⟩ := items_eq_ok_iff.mp (nonemptyItems_eq_ok_iff.mp hv)
      unfold Checks.checkedSuite at hchecked
      split at hchecked
      · cases hchecked
      · cases hchecked
        exact ⟨entries, rawTests, rfl, hheader, hlookup, hraw⟩
  | list _ => cases h
  | scalar _ => cases h

/-- A valid document takes its variables and its suites from the raw one. -/
theorem document_eq_ok {document : ActsDocument}
    (h : checks.document py entries = .ok document) :
    checks.documentVars py entries = .ok document.vars ∧
      checks.documentSuites py entries = .ok document.suites := by
  obtain ⟨⟨rest, vars, includes, suites, extra⟩, hfields, hchecked⟩ := bind_eq_ok_iff.mp h
  obtain ⟨-, hmore⟩ := both_eq_ok_iff.mp hfields
  obtain ⟨hvars, hmore⟩ := both_eq_ok_iff.mp hmore
  obtain ⟨-, hmore⟩ := both_eq_ok_iff.mp hmore
  obtain ⟨hsuites, -⟩ := both_eq_ok_iff.mp hmore
  unfold Checks.checkedDocument at hchecked
  split at hchecked
  · split at hchecked
    · cases hchecked
    · cases hchecked
      exact ⟨hvars, hsuites⟩
  · cases hchecked

end Validated

end A2aItk.Acts
