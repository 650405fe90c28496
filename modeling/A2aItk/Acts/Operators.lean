import A2aItk.Acts.Paths
import Mathlib.Algebra.GroupWithZero.Nat

/-!
# Leaf operators and results

What an assertion on a single value asks, when a mapping key is an operator, and
what an evaluation reports.

## Implementation notes

An absent value is `none`, the `MISSING` of the source. `one_of` is an operator
of its own: its mapping members are assertions, so it is evaluated with the trees.
-/

namespace A2aItk.Acts

open Python

/-- One assertion that did not hold. The path is the bare key where a key that is
no text was joined to the empty path. -/
structure Failure where
  path : Scalar
  operator : String
  expected : Value
  actual : Option Value
  message : String

/-- The outcome of evaluating an assertion tree. `checks` counts the comparisons
that ran. -/
structure AssertionResult where
  failures : List Failure := []
  checks : ℕ := 0

namespace AssertionResult

/-- Nothing has failed. -/
def ok (result : AssertionResult) : Bool := result.failures.isEmpty

/-- A result of no checks and no failures. -/
def pass : AssertionResult := {}

/-- `_ok`. -/
def counted (count : ℕ) : AssertionResult := { checks := count }

/-- `_fail`. -/
def fail (path : Scalar) (operator : String) (expected : Value) (actual : Option Value)
    (message : String) : AssertionResult :=
  { failures := [⟨path, operator, expected, actual, message⟩], checks := 1 }

instance : Add AssertionResult :=
  ⟨fun a b => ⟨a.failures ++ b.failures, a.checks + b.checks⟩⟩

/-- The sum of several results. -/
def total (results : List AssertionResult) : AssertionResult :=
  ⟨results.flatMap failures, (results.map checks).sum⟩

@[simp] theorem ok_pass : pass.ok = true := rfl

@[simp] theorem ok_counted (n : ℕ) : (counted n).ok = true := rfl

@[simp] theorem ok_fail (path : Scalar) (operator : String) (expected : Value)
    (actual : Option Value) (message : String) :
    (fail path operator expected actual message).ok = false := rfl

@[simp] theorem failures_add (a b : AssertionResult) :
    (a + b).failures = a.failures ++ b.failures := rfl

@[simp] theorem checks_add (a b : AssertionResult) : (a + b).checks = a.checks + b.checks := rfl

@[simp] theorem ok_add (a b : AssertionResult) : (a + b).ok = (a.ok && b.ok) := by
  cases ha : a.failures <;> simp [ok, ha]

@[simp] theorem total_nil : total [] = pass := rfl

@[simp] theorem total_cons (a : AssertionResult) (rest : List AssertionResult) :
    total (a :: rest) = a + total rest := rfl

end AssertionResult

section Text

variable (py : Interpreter)

/-- `_show`. -/
def showValue : Option Value → String
  | none => "<missing>"
  | some v => v.text py

/-- `path or "value"`. -/
def subject (path : Scalar) : String := if path.truthy then path.text py else "value"

/-- `_join`. Only text has the `startswith` it asks for. -/
def join (path part : Scalar) : Except Exception Scalar :=
  if path.truthy then
    match part with
    | .str p =>
        .ok (.str (path.text py ++ if "[".toList.isPrefixOf p.toList then p else "." ++ p))
    | _ => .error (.builtin .attributeError)
  else .ok part

/-- The path part of an array position. -/
def position (i : ℕ) : Scalar := .str s!"[{i}]"

end Text

/-- `_same`: equality, without `True == 1`. -/
def same (actual expected : Value) : Bool :=
  actual.isBool == expected.isBool && actual.eq expected

/-- A value-level operator. -/
inductive LeafOperator
  | type
  | present
  | absent
  | contains
  | matchesRegex
  | startsWith
  | endsWith
  | gte
  | lte
  | gt
  | lt
  | count
  | countGte
  | countLte
  deriving DecidableEq

namespace LeafOperator

/-- The leaf operators in the order of the source. -/
def all : List LeafOperator :=
  [type, present, absent, contains, matchesRegex, startsWith, endsWith, gte, lte, gt, lt, count,
    countGte, countLte]

/-- The key an operator is written as. -/
def name : LeafOperator → String
  | type => "type"
  | present => "exists"
  | absent => "absent"
  | contains => "contains"
  | matchesRegex => "matches"
  | startsWith => "starts_with"
  | endsWith => "ends_with"
  | gte => "gte"
  | lte => "lte"
  | gt => "gt"
  | lt => "lt"
  | count => "count"
  | countGte => "count_gte"
  | countLte => "count_lte"

/-- The operator within a message. -/
def describe : LeafOperator → String
  | type => "be of type"
  | present => "be present"
  | absent => "be absent"
  | contains => "contain"
  | matchesRegex => "match regex"
  | startsWith => "start with"
  | endsWith => "end with"
  | gte => "be >="
  | lte => "be <="
  | gt => "be >"
  | lt => "be <"
  | count => "have length"
  | countGte => "have length >="
  | countLte => "have length <="

/-- Whether the operator is about presence, and so means something of a missing value. -/
def toleratesMissing : LeafOperator → Bool
  | present | absent => true
  | _ => false

/-- `TYPE_NAMES`. -/
def typeTest : String → Option (Value → Bool)
  | "string" => some fun v => v.text?.isSome
  | "number" => some fun v => v.number?.isSome
  | "boolean" => some Value.isBool
  | "array" => some fun v => v.array?.isSome
  | "object" => some Value.isMapping
  | "null" => some fun
      | .scalar .null => true
      | _ => false
  | _ => none

/-- The value of a flag. -/
def flag? : Value → Option Bool
  | .scalar (.bool b) => some b
  | _ => none

/-- An `int` that is no `bool`. -/
def integer? : Value → Option ℤ
  | .scalar (.int i) => some i
  | _ => none

/-- Is the argument well-formed for the operator? -/
def accepts (argument : Value) : LeafOperator → Bool
  | type => (argument.text?.bind typeTest).isSome
  | present | absent => argument.isBool
  | contains | matchesRegex | startsWith | endsWith => argument.text?.isSome
  | gte | lte | gt | lt => argument.number?.isSome
  | count | countGte | countLte => (integer? argument).isSome

/-- A comparison of two texts. -/
def onTexts (holds : List Char → List Char → Bool) (argument actual : Value) : Bool :=
  match argument.text?, actual.text? with
  | some a, some v => holds a.toList v.toList
  | _, _ => false

/-- `_compare`. -/
def compare (holds : PyFloat → PyFloat → Bool) (argument actual : Value) : Bool :=
  match argument.number?, actual.number? with
  | some a, some v => holds v a
  | _, _ => false

/-- `_count_op`. -/
def countOp (holds : ℤ → ℤ → Bool) (argument actual : Value) : Bool :=
  match integer? argument, actual.array? with
  | some n, some items => holds items.length n
  | _, _ => false

/-- `_contains`: a part of a text, or a member of an array. -/
def containsValue (argument actual : Value) : Bool :=
  match actual.array? with
  | some items => items.any fun item => item.eq argument
  | none => onTexts (fun a v => decide (a <:+: v)) argument actual

/-- `_matches`. -/
def matchesValue (py : Interpreter) (argument actual : Value) : Except Exception Bool :=
  match argument.text?, actual.text? with
  | some pattern, some text =>
      match py.search pattern text with
      | some found => .ok found
      | none => .error .patternError
  | _, _ => .ok false

/-- Does the operator hold of a value that is there? -/
def holdsOf (py : Interpreter) (argument v : Value) : LeafOperator → Except Exception Bool
  | type => .ok (((argument.text?.bind typeTest).map fun test => test v).getD false)
  | present => .ok (flag? argument == some true)
  | absent => .ok (flag? argument == some false)
  | contains => .ok (containsValue argument v)
  | matchesRegex => matchesValue py argument v
  | startsWith => .ok (onTexts List.isPrefixOf argument v)
  | endsWith => .ok (onTexts List.isSuffixOf argument v)
  | gte => .ok (compare (fun v a => a.le v) argument v)
  | lte => .ok (compare PyFloat.le argument v)
  | gt => .ok (compare (fun v a => a.lt v) argument v)
  | lt => .ok (compare PyFloat.lt argument v)
  | count => .ok (countOp (fun n a => n = a) argument v)
  | countGte => .ok (countOp (fun n a => n ≥ a) argument v)
  | countLte => .ok (countOp (fun n a => n ≤ a) argument v)

/-- `holds`, on a value that may be missing. -/
def holds (py : Interpreter) (argument : Value) (actual : Option Value) (op : LeafOperator) :
    Except Exception Bool :=
  match actual, op with
  | some v, op => holdsOf py argument v op
  | none, present => .ok (flag? argument == some false)
  | none, absent => .ok (flag? argument == some true)
  | none, _ => .ok false

end LeafOperator

/-- An operator of a mapping: a leaf, or one that takes assertions. -/
inductive Operator
  | leaf (op : LeafOperator)
  | oneOf
  | allOf
  | anyOf
  | negation
  | items
  deriving DecidableEq

namespace Operator

/-- `OPERATORS`. -/
def all : List Operator := LeafOperator.all.map leaf ++ [oneOf, allOf, anyOf, negation, items]

/-- The key an operator is written as. -/
def name : Operator → String
  | leaf op => op.name
  | oneOf => "one_of"
  | allOf => "all_of"
  | anyOf => "any_of"
  | negation => "not"
  | items => "items"

/-- The operator within a message. -/
def describe : Operator → String
  | leaf op => op.describe
  | oneOf => "be one of"
  | _ => ""

/-- `_accepts`. -/
def accepts (argument : Value) : Operator → Bool
  | leaf op => op.accepts argument
  | oneOf => argument.array?.isSome
  | allOf | anyOf => argument.array?.any fun branches => !branches.isEmpty
  | negation => true
  | items => argument.array?.isSome || argument.isMapping

end Operator

/-- The operator a mapping entry is, when its key is a known name and its argument
is well-formed for it. Any other entry descends into a field. -/
def operator? (key : Scalar) (argument : Value) : Option Operator :=
  match key with
  | .str s => Operator.all.find? fun op => op.name = s && op.accepts argument
  | _ => none

section Leaf

variable (py : Interpreter)

/-- The failure of an operator on a missing value. -/
def missingValue (op : Operator) (argument : Value) (path : Scalar) : AssertionResult :=
  .fail path op.name argument none
    (s!"{subject py path} is missing, so it cannot {op.describe} " ++
      showValue py (some argument))

/-- The result of an operator that was applied. -/
def verdictOf (op : Operator) (argument : Value) (actual : Option Value) (path : Scalar)
    (holds : Bool) : AssertionResult :=
  if holds then .counted 1
  else .fail path op.name argument actual
    (s!"{subject py path} should {op.describe} {showValue py (some argument)}, " ++
      s!"got {showValue py actual}")

/-- `_apply_leaf`. -/
def applyLeaf (op : LeafOperator) (argument : Value) (actual : Option Value) (path : Scalar) :
    Except Exception AssertionResult :=
  if actual.isNone && !op.toleratesMissing then .ok (missingValue py (.leaf op) argument path)
  else verdictOf py (.leaf op) argument actual path <$> op.holds py argument actual

/-- `_evaluate_exact`. -/
def evaluateExact (expected : Value) (actual : Option Value) (path : Scalar) : AssertionResult :=
  match actual with
  | none => .fail path "exact" expected none s!"{subject py path} is missing"
  | some v =>
      if same v expected then .counted 1
      else .fail path "exact" expected actual
        (s!"{subject py path} should equal {showValue py (some expected)}, " ++
          s!"got {showValue py actual}")

end Leaf

end A2aItk.Acts
