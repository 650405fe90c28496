import A2aItk.Python.Objects
import A2aItk.Scenarios.Resolver

/-!
# Scenario documents

`scenarios/loader.py` and `scenarios/build_request.py`: the loader reads a parsed
document as it is, and `build` wraps it as the body of a request whose `tests` array the
service hands to the same reader.

## Implementation notes

The validation of a mapping against a model of the schema is the parameter `Models`.
-/

namespace A2aItk.Scenarios

open Python

/-- One problem a validation finds. -/
structure Problem where
  loc : List String
  msg : String

/-- `model_validate` of the two models of a scenario. -/
structure Models where
  traversalV1 : List (Scalar × Value) → Except (List Problem) TraversalScenarioV1
  legacy : List (Scalar × Value) → Except (List Problem) LegacyScenario

/-- The names `traversal/v1` gives its fields. -/
def traversalFields : List String :=
  ["schema", "name", "roles", "topology", "tier", "test_when", "expand", "behavior",
    "behaviors", "transports", "transport_sets", "streaming", "streaming_variants", "edges",
    "build_subtests"]

/-- `extra='forbid'`: a mapping with a key that names no field is refused. -/
def Models.ForbidsExtra (models : Models) : Prop :=
  ∀ entries key, (Value.lookup (.str key) entries).isSome → key ∉ traversalFields →
    ∃ problems, models.traversalV1 entries = .error problems

section Loader

def traversalV1 : String := "traversal/v1"

/-- Whether a raw mapping declares the new schema. -/
def isTraversalV1 (raw : Value) : Bool :=
  match raw.get? (.str "schema") with
  | some schema => schema.eq (.str traversalV1)
  | none => false

/-- `type(data).__name__`. -/
def typeName : Value → String
  | .list _ => "list"
  | .dict _ => "dict"
  | .scalar .null => "NoneType"
  | .scalar (.bool _) => "bool"
  | .scalar (.int _) => "int"
  | .scalar (.float _) => "float"
  | .scalar (.str _) => "str"
  | .scalar (.other text) =>
      if text.startsWith "datetime.datetime(" then "datetime"
      else if text.startsWith "datetime.date(" then "date" else "bytes"

def extractTests (data : Value) : Except PyError (List Value) :=
  match data with
  | .list items => pure items
  | .dict _ =>
      if isTraversalV1 data then pure [data]
      else match data.get? (.str "tests") with
        | some (.list tests) => pure tests
        | _ => throw (.valueError "expected a top-level object with a \"tests\" array")
  | .scalar _ => throw (.valueError s!"expected a mapping or a list, got {typeName data}")

/-- One line per problem. -/
def renderProblems (problems : List Problem) : String :=
  "; ".intercalate (problems.map fun p =>
    (if p.loc.isEmpty then "<root>" else ".".intercalate p.loc) ++ ": " ++ p.msg)

/-- What a validation returns, its problems raised as a file error. -/
def validated {α : Type} (place : String) : Except (List Problem) α → Except PyError α
  | .ok model => pure model
  | .error problems => throw (.valueError (place ++ ": " ++ renderProblems problems))

variable (py : Interpreter) (models : Models)

def parseOne (raw : Value) (entries : List (Scalar × Value)) (place : String) :
    Except PyError Declared :=
  if isTraversalV1 raw then .traversal <$> validated place (models.traversalV1 entries)
  else match raw.get? (.str "schema") with
    | some schema => throw (.valueError (place ++ ": unknown schema " ++ schema.repr py ++
        "; expected \"traversal/v1\" or no schema key for the legacy format"))
    | none => .legacy <$> validated place (models.legacy entries)

def parseEntry (entry : Value × ℕ) : Except PyError Declared :=
  match entry.1 with
  | .dict entries => parseOne py models entry.1 entries s!"tests[{entry.2}]"
  | _ => throw (.valueError s!"tests[{entry.2}] must be a mapping")

/-- Validate an already-parsed document into scenario models. -/
def parseTests (data : Value) : Except PyError (List Declared) := do
  let rawTests ← extractTests data
  rawTests.zipIdx.mapM (parseEntry py models)

end Loader

section Requests

/-- The body of a request to run scenarios. -/
structure RunRequest where
  tests : List Value
  sutSdk : Option String

/-- The array of scenarios a document stands for, or what it has in its place. -/
def requestTests (label : String) (data : Value) : Except String Value :=
  match data with
  | .list items => pure (.list items)
  | .dict _ => pure ((data.get? (.str "tests")).getD (.list [data]))
  | .scalar _ => throw s!"{label}: expected a mapping or a list"

/-- Wrap a scenario document as a request body. An error is the text the program exits
with; `loaded` is what the YAML parser makes of the text. -/
def build (loaded : Except String Value) (sutSdk : Option String) (label : String) :
    Except String RunRequest :=
  match loaded with
  | .error e => throw s!"{label}: could not parse: {e}"
  | .ok data =>
      if data.isNull then throw s!"{label}: file is empty"
      else do
        let tests ← requestTests label data
        match tests with
        | .list (first :: rest) => pure ⟨first :: rest, sutSdk.filter (· ≠ "")⟩
        | _ => throw s!"{label}: no scenarios found"

end Requests

section Agreement

variable {py : Interpreter} {models : Models}

/-- An entry the reader takes: a `traversal/v1` mapping or one without a schema, and
valid as such. -/
inductive ValidEntry (models : Models) : Value → Prop
  | traversal {entries : List (Scalar × Value)} {scenario : TraversalScenarioV1}
      (hschema : isTraversalV1 (.dict entries) = true)
      (h : models.traversalV1 entries = .ok scenario) : ValidEntry models (.dict entries)
  | legacy {entries : List (Scalar × Value)} {scenario : LegacyScenario}
      (hschema : Value.lookup (.str "schema") entries = none)
      (h : models.legacy entries = .ok scenario) : ValidEntry models (.dict entries)

theorem validated_isOk_iff {α : Type} {place : String} {outcome : Except (List Problem) α} :
    (∃ model, validated place outcome = .ok model) ↔ ∃ model, outcome = .ok model := by
  cases outcome with
  | ok model => simp [validated]
  | error problems => simp [validated]

theorem parseEntry_isOk_iff {entry : Value × ℕ} :
    (∃ declared, parseEntry py models entry = .ok declared) ↔ ValidEntry models entry.1 := by
  obtain ⟨raw, i⟩ := entry
  constructor
  · rintro ⟨declared, h⟩
    unfold parseEntry at h
    split at h
    · rename_i entries heq
      dsimp only at heq
      subst heq
      unfold parseOne at h
      split at h
      · rename_i hschema
        obtain ⟨scenario, hvalid, -⟩ := map_eq_ok_iff.mp h
        obtain ⟨model, hmodel⟩ := validated_isOk_iff.mp ⟨scenario, hvalid⟩
        exact .traversal hschema hmodel
      · split at h
        · cases h
        · rename_i hnone
          obtain ⟨scenario, hvalid, -⟩ := map_eq_ok_iff.mp h
          obtain ⟨model, hmodel⟩ := validated_isOk_iff.mp ⟨scenario, hvalid⟩
          exact .legacy hnone hmodel
    · cases h
  · intro h
    cases h with
    | @traversal entries scenario hschema h =>
        refine ⟨.traversal scenario, ?_⟩
        simp only [parseEntry, parseOne, hschema, if_true, h, validated]
        rfl
    | @legacy entries scenario hschema h =>
        have hlegacy : isTraversalV1 (.dict entries) = false := by
          simp [isTraversalV1, Value.get?, hschema]
        refine ⟨.legacy scenario, ?_⟩
        simp only [parseEntry, parseOne, hlegacy, Bool.false_eq_true, if_false, Value.get?, hschema,
          h, validated]
        rfl

/-- A list is read exactly where each of its entries is. -/
theorem parseTests_list_isOk_iff {items : List Value} :
    (∃ scenarios, parseTests py models (.list items) = .ok scenarios) ↔
      ∀ raw ∈ items, ValidEntry models raw := by
  have hparse : parseTests py models (.list items) =
      items.zipIdx.mapM (parseEntry py models) := rfl
  simp only [hparse, mapM_eq_ok_iff]
  constructor
  · rintro ⟨scenarios, h⟩ raw hraw
    obtain ⟨i, hi, rfl⟩ := List.mem_iff_getElem.mp hraw
    have hentry : (items[i], i) ∈ items.zipIdx := by
      rw [List.mem_zipIdx_iff_getElem?]
      simp [hi]
    obtain ⟨declared, -, hdeclared⟩ := exists_left_of_mem h.flip hentry
    exact parseEntry_isOk_iff.mp ⟨declared, hdeclared⟩
  · intro h
    apply exists_forall₂
    intro entry hentry
    apply parseEntry_isOk_iff.mpr
    exact h entry.1 (List.fst_mem_of_mem_zipIdx hentry)

/-- What the service reads from the request that is made of a document. -/
def throughRequest (py : Interpreter) (models : Models) (data : Value)
    (sutSdk : Option String) (label : String) : Option (List Declared) :=
  (build (.ok data) sutSdk label).toOption.bind fun request =>
    (parseTests py models (.list request.tests)).toOption

/-- The documents that mean the same both ways: a list has an entry; a mapping with
`tests` has a `traversal/v1` schema only where the tests cannot be read, and another one
has no empty `tests`; a mapping without `tests` is no valid legacy scenario. -/
def SameBothWays (models : Models) : Value → Prop
  | .scalar _ => True
  | .list items => items ≠ []
  | .dict entries =>
      match Value.lookup (.str "tests") entries with
      | none => isTraversalV1 (.dict entries) = true ∨ ¬ ValidEntry models (.dict entries)
      | some (.list tests) =>
          if isTraversalV1 (.dict entries) then tests = [] ∨ ∃ raw ∈ tests, ¬ ValidEntry models raw
          else tests ≠ []
      | some _ => True

variable {sutSdk : Option String} {label : String} {data : Value}

theorem throughRequest_of_cons {first : Value} {rest : List Value} (hnull : data.isNull = false)
    (h : requestTests label data = .ok (.list (first :: rest))) :
    throughRequest py models data sutSdk label =
      (parseTests py models (.list (first :: rest))).toOption := by
  unfold throughRequest build
  simp only [hnull, Bool.false_eq_true, if_false, h, ok_bind]
  rfl

theorem throughRequest_eq_none {tests : Value} (h : requestTests label data = .ok tests)
    (hempty : ∀ first rest, tests ≠ .list (first :: rest)) :
    throughRequest py models data sutSdk label = none := by
  unfold throughRequest build
  cases hnull : data.isNull with
  | true =>
      simp only [hnull, if_true]
      rfl
  | false =>
      simp only [hnull, Bool.false_eq_true, if_false, h, ok_bind]
      cases tests with
      | list items =>
          cases items with
          | nil => rfl
          | cons first rest => exact absurd rfl (hempty first rest)
      | dict entries => rfl
      | scalar s => rfl

theorem toOption_eq_none_iff {ε α : Type} {x : Except ε α} :
    x.toOption = none ↔ ¬ ∃ a, x = .ok a := by
  cases x <;> simp [Except.toOption]

/-- A single mapping is read as the list of it. -/
theorem parseTests_traversal {entries : List (Scalar × Value)}
    (h : isTraversalV1 (.dict entries) = true) :
    parseTests py models (.dict entries) = parseTests py models (.list [.dict entries]) := by
  unfold parseTests extractTests
  rw [if_pos h]

/-- A mapping with `tests` is read as the list it has there, and rejected where it has
something else. -/
theorem parseTests_of_tests {entries : List (Scalar × Value)} {items : List Value}
    (htraversal : isTraversalV1 (.dict entries) = false)
    (htests : Value.lookup (.str "tests") entries = some (.list items)) :
    parseTests py models (.dict entries) = parseTests py models (.list items) := by
  simp only [parseTests, extractTests, htraversal, Value.get?, htests]
  rfl

theorem parseTests_of_no_list {entries : List (Scalar × Value)} {tests : Value}
    (htraversal : isTraversalV1 (.dict entries) = false)
    (htests : Value.lookup (.str "tests") entries = some tests) (hlist : tests.array? = none) :
    (parseTests py models (.dict entries)).toOption = none := by
  simp only [parseTests, extractTests, htraversal, Value.get?, htests]
  cases tests with
  | list items => cases hlist
  | dict _ => rfl
  | scalar _ => rfl

/-- The loader and the service read a document the same way exactly where it means the
same both ways. -/
theorem both_ways_agree_iff (hforbids : models.ForbidsExtra) (data : Value) :
    (parseTests py models data).toOption = throughRequest py models data sutSdk label ↔
      SameBothWays models data := by
  cases data with
  | scalar s =>
      have hrejected : throughRequest py models (.scalar s) sutSdk label = none := by
        unfold throughRequest build
        cases s <;> rfl
      rw [hrejected]
      exact iff_of_true rfl trivial
  | list items =>
      cases items with
      | nil =>
          have hrejected : throughRequest py models (.list []) sutSdk label = none :=
            throughRequest_eq_none rfl (by simp)
          have haccepted : (parseTests py models (.list [])).toOption = some [] := rfl
          simp [hrejected, haccepted, SameBothWays]
      | cons first rest =>
          rw [throughRequest_of_cons rfl rfl]
          simp [SameBothWays]
  | dict entries =>
      have hrequest : requestTests label (.dict entries) =
          .ok ((Value.lookup (.str "tests") entries).getD (.list [.dict entries])) := rfl
      cases htests : Value.lookup (.str "tests") entries with
      | none =>
          rw [htests] at hrequest
          rw [throughRequest_of_cons rfl hrequest]
          simp only [SameBothWays, htests]
          cases htraversal : isTraversalV1 (.dict entries) with
          | true => simp [parseTests_traversal htraversal]
          | false =>
              have hrejected : (parseTests py models (.dict entries)).toOption = none := by
                simp only [parseTests, extractTests, htraversal, Value.get?, htests]
                rfl
              rw [hrejected, eq_comm, toOption_eq_none_iff, parseTests_list_isOk_iff]
              simp
      | some tests =>
          rw [htests] at hrequest
          cases htraversal : isTraversalV1 (.dict entries) with
          | true =>
              have hextra : ¬ ValidEntry models (.dict entries) := by
                have hrefused := hforbids entries "tests" (by simp [htests]) (by decide)
                obtain ⟨problems, hproblems⟩ := hrefused
                intro hvalid
                cases hvalid with
                | traversal _ h => simp [hproblems] at h
                | legacy hnone _ => simp [isTraversalV1, Value.get?, hnone] at htraversal
              have hrejected : (parseTests py models (.dict entries)).toOption = none := by
                rw [parseTests_traversal htraversal, toOption_eq_none_iff,
                  parseTests_list_isOk_iff]
                simpa using hextra
              rw [hrejected]
              simp only [SameBothWays, htests]
              cases tests with
              | list items =>
                  cases items with
                  | nil =>
                      rw [throughRequest_eq_none hrequest (by simp)]
                      simp [htraversal]
                  | cons first rest =>
                      rw [throughRequest_of_cons rfl hrequest, eq_comm, toOption_eq_none_iff,
                        parseTests_list_isOk_iff]
                      simp only [htraversal, if_true, reduceCtorEq, false_or, not_forall,
                        exists_prop]
              | dict _ => simp [throughRequest_eq_none hrequest]
              | scalar _ => simp [throughRequest_eq_none hrequest]
          | false =>
              simp only [SameBothWays, htests]
              cases tests with
              | list items =>
                  rw [parseTests_of_tests htraversal htests]
                  cases items with
                  | nil =>
                      rw [throughRequest_eq_none hrequest (by simp)]
                      have haccepted : (parseTests py models (.list [])).toOption = some [] := rfl
                      simp [htraversal, haccepted]
                  | cons first rest =>
                      rw [throughRequest_of_cons rfl hrequest]
                      simp [htraversal]
              | dict _ =>
                  rw [throughRequest_eq_none hrequest (by simp),
                    parseTests_of_no_list htraversal htests rfl]
                  exact iff_of_true rfl trivial
              | scalar _ =>
                  rw [throughRequest_eq_none hrequest (by simp),
                    parseTests_of_no_list htraversal htests rfl]
                  exact iff_of_true rfl trivial

/-- What the models make of a mapping of required texts and nothing else: a legacy
scenario, and no `traversal/v1` one. -/
def plainModels : Models where
  traversalV1 _ := .error [⟨["roles"], "Field required"⟩]
  legacy
    | [(.str "name", .scalar (.str name)), (.str "sdks", .list []),
        (.str "behavior", .scalar (.str behavior))] => .ok { name, sdks := [], behavior }
    | _ => .error [⟨["name"], "Field required"⟩]

theorem plainModels_forbidsExtra : plainModels.ForbidsExtra := fun _ _ _ _ => ⟨_, rfl⟩

/-- A legacy scenario of no agents. -/
def lone : Value :=
  .object [("name", .str "lone"), ("sdks", .list []), ("behavior", .str "send_message")]

theorem wrapped_scenario_agrees :
    (parseTests .plain plainModels (.object [("tests", .list [lone])])).toOption =
      throughRequest .plain plainModels (.object [("tests", .list [lone])]) none "<stdin>" := by
  apply (both_ways_agree_iff plainModels_forbidsExtra _).mpr
  change [lone] ≠ []
  simp

/-- A legacy scenario without its wrapper is rejected by the loader and run by the
service; of no scenarios at all it is the other way round. -/
theorem lone_scenario_disagrees :
    (parseTests .plain plainModels lone).toOption = none ∧
    throughRequest .plain plainModels lone none "<stdin>" =
      some [.legacy { name := "lone", sdks := [], behavior := "send_message" }] ∧
    (parseTests .plain plainModels (.list [])).toOption = some [] ∧
    throughRequest .plain plainModels (.list []) none "<stdin>" = none :=
  ⟨rfl, rfl, rfl, rfl⟩

end Agreement

end A2aItk.Scenarios
