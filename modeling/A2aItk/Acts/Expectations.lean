import A2aItk.Acts.Assertions
import A2aItk.Acts.Schema
import A2aItk.Python.Dict
import A2aItk.Python.Objects

/-!
# Expect blocks

The assertion trees of a step's blocks, and collection and named assertions,
against what a call returned.

## Implementation notes

A path may read nothing, so the value a collection starts from, and with it what
the empty path reaches, may be absent.
-/

namespace A2aItk.Acts

open Python

/-- The fields as the entries of a mapping. -/
def Fields.entries (fields : Fields) : List (Scalar × Value) :=
  fields.map fun field => (.str field.1, field.2)

/-- An exception of the interpreter reaches the runner as it is. -/
def builtin {α : Type*} : Except PyError α → Except Exception α := Except.mapError .builtin

section Blocks

variable (py : Interpreter)

/-- `evaluate_body`. -/
def evaluateBody (body : Fields) (actual : Value) (path : String) :
    Except Exception AssertionResult :=
  evaluateMap py id body.entries (some actual) (.str path)

/-- `evaluate_status`. -/
def evaluateStatus (status actual : Value) : Except Exception AssertionResult :=
  evaluate py id status (some actual) (.str "status")

/-- A header name as it is looked up. -/
def foldName : Scalar → Scalar
  | .str name => .str (py.lower name)
  | key => key

/-- `_FoldedHeaders`: what was received, by lower-case name. -/
def foldedHeaders (actual : Value) : Except PyError Value :=
  if !actual.truthy then pure (.dict [])
  else
    match actual with
    | .dict entries => do
        let folded ← entries.mapM fun entry =>
          match entry.1 with
          | .str name => pure (Scalar.str (py.lower name), entry.2)
          | _ => throw PyError.attributeError
        pure (.dict (Dict.ofList folded).entries)
    | _ => throw .attributeError

/-- `evaluate_headers`. -/
def evaluateHeaders (headers : Fields) (actual : Value) (path : String) :
    Except Exception AssertionResult := do
  let folded ← builtin (foldedHeaders py actual)
  evaluateMap py (foldName py) headers.entries (some folded) (.str path)

/-- The assertions an `expect_error` block declares, by the field they are about. -/
def ExpectError.assertions (expected : ExpectError) : Fields :=
  [("error_type", expected.errorType), ("message", expected.message),
    ("details", expected.details)].filter fun field => !field.2.isNull

/-- `evaluate_error`. -/
def evaluateError (expected : ExpectError) (observed : Fields) :
    Except Exception AssertionResult :=
  AssertionResult.total <$> expected.assertions.mapM fun field => do
    let path ← join py (.str "error") (.str field.1)
    evaluate py id field.2 (observed.lookup field.1) path

end Blocks

/-- How a collection assertion quantifies. -/
inductive Quantifier
  | any
  | all
  | noneOf
  deriving DecidableEq

namespace Quantifier

def name : Quantifier → String
  | any => "any"
  | all => "all"
  | noneOf => "none"

end Quantifier

/-- `read_path_all`, from a value that may be absent. -/
def reachAll (source : Option Value) (path : String) :
    Except Exception (List (String × Option Value)) :=
  match source with
  | some value => do
      let reached ← readPathAll value path
      pure (reached.map fun place => (place.1, some place.2))
  | none => do
      let segments ← parsePath path
      pure (if segments.isEmpty then [("", none)] else [])

section Named

variable (py : Interpreter)

/-- The result of a collection assertion, from what each element came to. -/
def quantified (pattern : CollectionMatch) (mode : Quantifier) (base : Scalar)
    (outcomes : List (String × AssertionResult)) : AssertionResult :=
  let passed := (outcomes.filter fun outcome => outcome.2.ok).map Prod.fst
  let checks := (outcomes.map fun outcome => outcome.2.checks).sum
  match mode with
  | .all =>
      let failures := outcomes.flatMap fun outcome => outcome.2.failures
      if failures.isEmpty then .counted checks else ⟨failures, checks⟩
  | .any =>
      if passed.isEmpty then
        .fail base "any" (.object pattern.pattern) none
          s!"none of the {outcomes.length} element(s) at {pattern.path} matched"
      else .counted checks
  | .noneOf =>
      if passed.isEmpty then .counted checks
      else
        .fail base "none" (.object pattern.pattern) (some (.list (passed.map .str)))
          (s!"{passed.length} of {outcomes.length} element(s) at {pattern.path} matched " ++
            "but should not have (" ++ ", ".intercalate passed ++ ")")

/-- `evaluate_collection`. -/
def evaluateCollection (pattern : CollectionMatch) (mode : Quantifier) (source : Option Value)
    (path : Scalar) : Except Exception AssertionResult := do
  let reached ← reachAll source pattern.path
  let base ← join py path (.str pattern.path)
  if reached.isEmpty then
    match mode with
    | .noneOf => pure (.counted 1)
    | mode =>
        pure (.fail base mode.name (.object pattern.pattern) none
          s!"{pattern.path} matched no elements, so `{mode.name}` checked nothing")
  else do
    let outcomes ← reached.mapM fun place => do
      let located ← join py path (.str place.1)
      let outcome ← evaluateMap py id (Fields.entries pattern.pattern) place.2 located
      pure (place.1, outcome)
    pure (quantified pattern mode base outcomes)

namespace NamedAssertion

variable (assertion : NamedAssertion)

/-- What is asserted about: the source, or what its `path` reads. -/
def target (source : Value) : Except Exception (Option Value) :=
  let narrowed := assertion.path.getD ""
  if narrowed.isEmpty then pure (some source) else readPath source narrowed

/-- The path its failures are reported under. -/
def root : Except Exception Scalar :=
  let root : Scalar := .str (assertion.id.getD "")
  let narrowed := assertion.path.getD ""
  if narrowed.isEmpty then pure root else join py root (.str narrowed)

end NamedAssertion

/-- The one check of a named assertion. -/
def checkNamed (assertion : NamedAssertion) (value : Option Value) (root : Scalar) :
    Except Exception AssertionResult :=
  if !assertion.pattern.isNull then evaluate py id assertion.pattern value root
  else
    match assertion.any, assertion.all, assertion.noneOf with
    | some pattern, _, _ => evaluateCollection py pattern .any value root
    | none, some pattern, _ => evaluateCollection py pattern .all value root
    | none, none, some pattern => evaluateCollection py pattern .noneOf value root
    | none, none, none =>
        let shown := (assertion.id.map Text.repr).getD "None"
        throw (.builtin (.valueError s!"named assertion {shown} has no check"))

/-- `evaluate_named`, on a source that is resolved. -/
def evaluateNamed (assertion : NamedAssertion) (source : Value) :
    Except Exception AssertionResult := do
  let value ← assertion.target source
  let root ← assertion.root py
  checkNamed py assertion value root

end Named

end A2aItk.Acts
