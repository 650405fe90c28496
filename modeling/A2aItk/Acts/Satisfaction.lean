import A2aItk.Acts.Assertions

/-!
# What an assertion tree means

Three readings of a tree against a value, none of which mentions paths or
messages: whether the value satisfies it, whether its evaluation stumbles over a
mapping key that is no text or a pattern that does not compile, and whether it
compares anything. `evaluate` agrees with all three.
-/

namespace A2aItk.Acts

open Python

/-- How a mapping entry is read. -/
inductive Clause : Scalar → Value → Prop
  | leaf {key : Scalar} {argument : Value} (op : LeafOperator)
      (h : operator? key argument = some (.leaf op)) : Clause key argument
  | oneOf {key : Scalar} (options : List Value)
      (h : operator? key (.list options) = some .oneOf) : Clause key (.list options)
  | allOf {key : Scalar} (branches : List Value)
      (h : operator? key (.list branches) = some .allOf) : Clause key (.list branches)
  | anyOf {key : Scalar} (branches : List Value)
      (h : operator? key (.list branches) = some .anyOf) : Clause key (.list branches)
  | negation {key : Scalar} {argument : Value}
      (h : operator? key argument = some .negation) : Clause key argument
  | positions {key : Scalar} (assertions : List Value)
      (h : operator? key (.list assertions) = some .items) : Clause key (.list assertions)
  | elements {key : Scalar} (entries : List (Scalar × Value))
      (h : operator? key (.dict entries) = some .items) : Clause key (.dict entries)
  | field {key : Scalar} {argument : Value} (h : operator? key argument = none) :
      Clause key argument

theorem accepts_of_operator? {key : Scalar} {argument : Value} {op : Operator}
    (h : operator? key argument = some op) : op.accepts argument = true := by
  unfold operator? at h
  cases key with
  | str s =>
      have hfound := List.find?_some h
      simp only [Bool.and_eq_true] at hfound
      exact hfound.2
  | _ => cases h

/-- An operator comes with an argument of the shape it is evaluated at. -/
theorem clause (key : Scalar) (argument : Value) : Clause key argument := by
  cases h : operator? key argument with
  | none => exact .field h
  | some op =>
      have hacc := accepts_of_operator? h
      cases op with
      | leaf op => exact .leaf op h
      | negation => exact .negation h
      | oneOf =>
          cases argument with
          | list options => exact .oneOf options h
          | _ => simp [Operator.accepts, Value.array?] at hacc
      | allOf =>
          cases argument with
          | list branches => exact .allOf branches h
          | _ => simp [Operator.accepts, Value.array?] at hacc
      | anyOf =>
          cases argument with
          | list branches => exact .anyOf branches h
          | _ => simp [Operator.accepts, Value.array?] at hacc
      | items =>
          cases argument with
          | list assertions => exact .positions assertions h
          | dict entries => exact .elements entries h
          | scalar s => simp [Operator.accepts, Value.array?, Value.isMapping] at hacc

section Readings

variable (py : Interpreter)

/-- The operator holds of the value. -/
def LeafOperator.satisfies (argument : Value) (actual : Option Value) (op : LeafOperator) :
    Bool :=
  (actual.isSome || op.toleratesMissing) && (op.holds py argument actual).toOption.getD false

mutual

/-- The value satisfies the tree. -/
def satisfies (fold : Scalar → Scalar) (assertion : Value) (actual : Option Value) : Bool :=
  match assertion with
  | .dict entries => satisfiesMap fold entries actual
  | .list assertions =>
      (actual.bind Value.array?).any fun elements =>
        assertions.length ≤ elements.length && satisfiesPositions assertions elements
  | .scalar s => actual.any fun v => same v (.scalar s)

/-- Every entry of a mapping holds: operators of the value itself, fields of what is below it. -/
def satisfiesMap (fold : Scalar → Scalar) (node : List (Scalar × Value))
    (actual : Option Value) : Bool :=
  match node with
  | [] => true
  | (key, argument) :: rest =>
      (match operator? key argument, argument with
        | some (.leaf op), argument => op.satisfies py argument actual
        | some .oneOf, .list options => actual.isSome && satisfiesOption fold options actual
        | some .allOf, .list branches => satisfiesAll fold branches actual
        | some .anyOf, .list branches => satisfiesAny fold branches actual
        | some .negation, argument => !satisfies fold argument actual
        | some .items, .list assertions =>
            (actual.bind Value.array?).any fun elements =>
              assertions.length ≤ elements.length && satisfiesPositions assertions elements
        | some .items, .dict entries =>
            (actual.bind Value.array?).any fun elements =>
              elements.all fun element => satisfiesMap id entries (some element)
        | _, argument => satisfies id argument (member fold actual key)) &&
      satisfiesMap fold rest actual

/-- All branches hold. -/
def satisfiesAll (fold : Scalar → Scalar) (branches : List Value) (actual : Option Value) :
    Bool :=
  match branches with
  | [] => true
  | branch :: rest => satisfies fold branch actual && satisfiesAll fold rest actual

/-- A branch holds. -/
def satisfiesAny (fold : Scalar → Scalar) (branches : List Value) (actual : Option Value) :
    Bool :=
  match branches with
  | [] => false
  | branch :: rest => satisfies fold branch actual || satisfiesAny fold rest actual

/-- A mapping among the options of `one_of` is an assertion, anything else a value. -/
def satisfiesOption (fold : Scalar → Scalar) (options : List Value) (actual : Option Value) :
    Bool :=
  match options with
  | [] => false
  | .dict entries :: rest =>
      satisfiesMap fold entries actual || satisfiesOption fold rest actual
  | option :: rest => (actual.any fun v => same v option) || satisfiesOption fold rest actual

/-- The assertions hold of the elements in the same places. -/
def satisfiesPositions (assertions elements : List Value) : Bool :=
  match assertions, elements with
  | assertion :: rest, element :: others =>
      satisfies id assertion (some element) && satisfiesPositions rest others
  | _, _ => true

end

/-- The operator is applied to the value and raises: its pattern does not compile. -/
def LeafOperator.raises (argument : Value) (actual : Option Value) (op : LeafOperator) : Bool :=
  (actual.isSome || op.toleratesMissing) && !(op.holds py argument actual).isOk

mutual

/-- The evaluation gets to a field name that is no text, below a path that is not
empty, or applies a pattern that does not compile: `rooted` says whether the path so
far is not empty. -/
def stumbles (fold : Scalar → Scalar) (assertion : Value) (actual : Option Value)
    (rooted : Bool) : Bool :=
  match assertion with
  | .dict entries => stumblesMap fold entries actual rooted
  | .list assertions =>
      (actual.bind Value.array?).any fun elements =>
        assertions.length ≤ elements.length && stumblesPositions assertions elements
  | .scalar _ => false

/-- Some entry of a mapping raises. Below a path that is not empty, a key that is no text does. -/
def stumblesMap (fold : Scalar → Scalar) (node : List (Scalar × Value))
    (actual : Option Value) (rooted : Bool) : Bool :=
  match node with
  | [] => false
  | (key, argument) :: rest =>
      (match operator? key argument, argument with
        | some (.leaf op), argument => op.raises py argument actual
        | some .oneOf, .list options => actual.isSome && stumblesOption fold options actual
        | some .allOf, .list branches => stumblesBranches fold branches actual rooted
        | some .anyOf, .list branches => stumblesBranches fold branches actual rooted
        | some .negation, argument => stumbles fold argument actual rooted
        | some .items, .list assertions =>
            (actual.bind Value.array?).any fun elements =>
              assertions.length ≤ elements.length && stumblesPositions assertions elements
        | some .items, .dict entries =>
            (actual.bind Value.array?).any fun elements =>
              elements.any fun element => stumblesMap id entries (some element) true
        | _, argument =>
            (rooted && !(Value.scalar key).text?.isSome) ||
              stumbles id argument (member fold actual key) (rooted || key.truthy)) ||
      stumblesMap fold rest actual rooted

/-- Some branch raises; every branch is evaluated. -/
def stumblesBranches (fold : Scalar → Scalar) (branches : List Value) (actual : Option Value)
    (rooted : Bool) : Bool :=
  match branches with
  | [] => false
  | branch :: rest =>
      stumbles fold branch actual rooted || stumblesBranches fold rest actual rooted

/-- The options of `one_of` are tried up to the first that holds. -/
def stumblesOption (fold : Scalar → Scalar) (options : List Value) (actual : Option Value) :
    Bool :=
  match options with
  | [] => false
  | .dict entries :: rest =>
      stumblesMap fold entries actual false ||
        !satisfiesMap py fold entries actual && stumblesOption fold rest actual
  | option :: rest => !(actual.any fun v => same v option) && stumblesOption fold rest actual

/-- Some assertion raises on the element in its place. -/
def stumblesPositions (assertions elements : List Value) : Bool :=
  match assertions, elements with
  | assertion :: rest, element :: others =>
      stumbles id assertion (some element) true || stumblesPositions rest others
  | _, _ => false

end

mutual

/-- Some comparison of the tree is made on the value. -/
def compares (fold : Scalar → Scalar) (assertion : Value) (actual : Option Value) : Bool :=
  match assertion with
  | .dict entries => comparesMap fold entries actual
  | .list assertions => comparesPositions assertions ((actual.bind Value.array?).getD [])
  | .scalar _ => true

/-- Some entry of a mapping compares. -/
def comparesMap (fold : Scalar → Scalar) (node : List (Scalar × Value))
    (actual : Option Value) : Bool :=
  match node with
  | [] => false
  | (key, argument) :: rest =>
      (match operator? key argument, argument with
        | some (.leaf _), _ => true
        | some .oneOf, .list _ => true
        | some .allOf, .list branches => comparesBranches fold branches actual
        | some .anyOf, .list _ => true
        | some .negation, _ => true
        | some .items, .list assertions =>
            comparesPositions assertions ((actual.bind Value.array?).getD [])
        | some .items, .dict entries =>
            ((actual.bind Value.array?).getD []).any fun element =>
              comparesMap id entries (some element)
        | _, argument => compares id argument (member fold actual key)) ||
      comparesMap fold rest actual

/-- Some branch compares. -/
def comparesBranches (fold : Scalar → Scalar) (branches : List Value) (actual : Option Value) :
    Bool :=
  match branches with
  | [] => false
  | branch :: rest => compares fold branch actual || comparesBranches fold rest actual

/-- Some assertion compares with the element in its place. -/
def comparesPositions (assertions elements : List Value) : Bool :=
  match assertions, elements with
  | assertion :: rest, element :: others =>
      compares id assertion (some element) || comparesPositions rest others
  | _, _ => false

end

end Readings

end A2aItk.Acts
