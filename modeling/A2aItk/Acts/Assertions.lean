import A2aItk.Acts.Operators

/-!
# The assertion evaluator

`evaluate` over an assertion tree: a mapping splits into operators and field
descents, and everything it yields is conjoined.

## Implementation notes

`fold` is applied to the keys the value itself is asked for. It is the identity
except under `expect.headers`, where header names are matched in lower case.
-/

namespace A2aItk.Acts

open Python

/-- `_member`. -/
def member (fold : Scalar → Scalar) (actual : Option Value) (key : Scalar) : Option Value :=
  actual.bind fun v => v.get? (fold key)

/-- `result += …`: two evaluations one after the other, their results added. -/
def conjoin (x y : Except Exception AssertionResult) : Except Exception AssertionResult := do
  let result ← x
  let others ← y
  pure (result + others)

section Failures

variable (py : Interpreter)

/-- The elements a list of assertions is matched with, or the failure when there
is not one for each. -/
def elementsFor (assertions : List Value) (actual : Option Value) (path : Scalar) :
    AssertionResult ⊕ List Value :=
  match actual.bind Value.array? with
  | none => .inl (.fail path "items" (.list assertions) actual
      s!"{subject py path} should be an array to match by position")
  | some elements =>
      if elements.length < assertions.length then
        .inl (.fail path "items" (.list assertions) actual
          (s!"{subject py path} has {elements.length} element(s), " ++
            s!"{assertions.length} asserted"))
      else .inr elements

/-- The failure of a mapping under `items` on what is no array. -/
def itemsFailure (argument : Value) (actual : Option Value) (path : Scalar) : AssertionResult :=
  .fail path "items" argument actual s!"{subject py path} should be an array for \x60items\x60"

/-- The result of `any_of`. -/
def anyOfResult (branches : List Value) (actual : Option Value) (path : Scalar)
    (attempts : List AssertionResult) : AssertionResult :=
  if attempts.any AssertionResult.ok then .counted 1
  else .fail path "any_of" (.list branches) actual
    s!"{subject py path} matched none of the {branches.length} alternatives"

/-- The result of `not`. -/
def negationResult (argument : Value) (actual : Option Value) (path : Scalar)
    (attempt : AssertionResult) : AssertionResult :=
  if attempt.ok then
    .fail path "not" argument actual
      s!"{subject py path} should not have matched {showValue py (some argument)}"
  else .counted 1

end Failures

section Evaluate

variable (py : Interpreter)

mutual

/-- Evaluate one assertion subtree against one value. -/
def evaluate (fold : Scalar → Scalar) (assertion : Value) (actual : Option Value)
    (path : Scalar) : Except Exception AssertionResult :=
  match assertion with
  | .dict entries => evaluateMap fold entries actual path
  | .list assertions =>
      match elementsFor py assertions actual path with
      | .inl failure => pure failure
      | .inr elements => evaluatePositional assertions elements 0 path
  | .scalar s => pure (evaluateExact py (.scalar s) actual path)

/-- Split a map into operators and field descents. -/
def evaluateMap (fold : Scalar → Scalar) (node : List (Scalar × Value))
    (actual : Option Value) (path : Scalar) : Except Exception AssertionResult :=
  match node with
  | [] => pure .pass
  | (key, argument) :: rest =>
      conjoin
        (match operator? key argument, argument with
          | some (.leaf op), argument => applyLeaf py op argument actual path
          | some .oneOf, .list options =>
              if actual.isNone then pure (missingValue py .oneOf argument path)
              else
                verdictOf py .oneOf argument actual path <$> evaluateOptions fold options actual
          | some .allOf, .list branches =>
              AssertionResult.total <$> evaluateBranches fold branches actual path
          | some .anyOf, .list branches =>
              anyOfResult py branches actual path <$> evaluateBranches fold branches actual path
          | some .negation, argument =>
              negationResult py argument actual path <$> evaluate fold argument actual path
          | some .items, .list assertions =>
              match elementsFor py assertions actual path with
              | .inl failure => pure failure
              | .inr elements => evaluatePositional assertions elements 0 path
          | some .items, .dict entries =>
              match actual.bind Value.array? with
              | none => pure (itemsFailure py argument actual path)
              | some elements =>
                  AssertionResult.total <$> elements.zipIdx.mapM fun element => do
                    evaluateMap id entries (some element.1)
                      (← join py path (position element.2))
          | _, argument => do
              evaluate id argument (member fold actual key) (← join py path key))
        (evaluateMap fold rest actual path)

/-- Evaluate every branch of a combinator against the same value. -/
def evaluateBranches (fold : Scalar → Scalar) (branches : List Value) (actual : Option Value)
    (path : Scalar) : Except Exception (List AssertionResult) :=
  match branches with
  | [] => pure []
  | branch :: rest => do
      let attempt ← evaluate fold branch actual path
      let attempts ← evaluateBranches fold rest actual path
      pure (attempt :: attempts)

/-- `_one_of`: membership, where a mapping among the options is an assertion. -/
def evaluateOptions (fold : Scalar → Scalar) (options : List Value) (actual : Option Value) :
    Except Exception Bool :=
  match options with
  | [] => pure false
  | .dict entries :: rest => do
      let attempt ← evaluateMap fold entries actual (.str "")
      if attempt.ok then pure true else evaluateOptions fold rest actual
  | option :: rest =>
      if actual.any fun v => same v option then pure true else evaluateOptions fold rest actual

/-- Evaluate assertions against the elements from a position on. -/
def evaluatePositional (assertions elements : List Value) (i : ℕ) (path : Scalar) :
    Except Exception AssertionResult :=
  match assertions, elements with
  | assertion :: rest, element :: others =>
      conjoin (do evaluate id assertion (some element) (← join py path (position i)))
        (evaluatePositional rest others (i + 1) path)
  | _, _ => pure .pass

end

end Evaluate

end A2aItk.Acts
