import A2aItk.Acts.Paths
import A2aItk.Python.Dict
import A2aItk.Python.Effects
import A2aItk.Scenarios.Matrix

/-!
# Variables

A test's scope, the `{{…}}` references that are resolved against it, and
`capture`. Fresh identifiers come from outside: `newUuid` draws one from the
state of the world.
-/

namespace A2aItk.Acts

open Python

/-- A piece of a text: a character, or the inside of a reference. -/
inductive Piece
  | char (c : Char)
  | reference (body : List Char)

/-- The reference a text starts with: two opening braces, something free of
braces, two closing braces. -/
def reference? : List Char → Option (List Char)
  | '\x7b' :: '\x7b' :: rest =>
      let body := rest.takeWhile fun c => c ≠ '\x7b' && c ≠ '\x7d'
      match body, rest.drop body.length with
      | _ :: _, '\x7d' :: '\x7d' :: _ => some body
      | _, _ => none
  | _ => none

/-- The references of a text from the left, none inside another: `skip`
characters of the last one are still to be passed over. -/
def piecesGo : ℕ → List Char → List Piece
  | _, [] => []
  | skip + 1, _ :: rest => piecesGo skip rest
  | 0, c :: rest =>
      match reference? (c :: rest) with
      | some body => .reference body :: piecesGo (body.length + 3) rest
      | none => .char c :: piecesGo 0 rest

def pieces (text : String) : List Piece := piecesGo 0 text.toList

/-- The variables one test can see. -/
structure Scope where
  vars : Dict String Value
  /-- `os.environ`. -/
  env : String → Option String
  captures : Dict String (Dict String Value)

namespace Scope

/-- The capture name every step gets for free. -/
def implicitResponse : String := "response"

def capturesOf (scope : Scope) (stepId : String) : Dict String Value :=
  (scope.captures.get? stepId).getD Dict.empty

/-- Make `step_id.name` resolve to a value. -/
def record (scope : Scope) (stepId name : String) (value : Value) : Scope :=
  { scope with captures := scope.captures.set stepId ((scope.capturesOf stepId).set name value) }

/-- Make `step_id.response` resolve to the whole response, unless the step has
captured something under that name. -/
def recordResponse (scope : Scope) (stepId : String) (response : Value) : Scope :=
  match (scope.capturesOf stepId).get? implicitResponse with
  | some _ => scope
  | none => scope.record stepId implicitResponse response

/-- Apply a `capture` block, one name after the other. What was bound before a
miss stays bound. -/
def capture (scope : Scope) (stepId : String) (response : Value) :
    List (String × String) → Scope × Except Exception Unit
  | [] => (scope, .ok ())
  | (name, path) :: rest =>
      match readPath response path with
      | .error e => (scope, .error e)
      | .ok none => (scope, .error (.unresolvedVariable
          (s!"step {Text.repr stepId} cannot capture {Text.repr name}: no value at " ++
            s!"path {Text.repr path} in the response")))
      | .ok (some value) => capture (scope.record stepId name value) stepId response rest

section

variable {σ : Type} (py : Interpreter) (newUuid : σ → String × σ)

/-- `str` of a list of names. -/
def showNames (names : List String) : String :=
  (Value.list ((Scenarios.sortedSet names).map .str)).repr py

/-- Resolve the inside of a reference, keeping the type of the value. -/
def resolve (scope : Scope) (reference : List Char) : EStateM Exception σ Value :=
  let ref := String.ofList (Text.strip reference)
  if ref = "$uuid" then .str <$> Effects.update newUuid
  else if '.' ∈ ref.toList then
    let parts := Text.partition ['.'] ref.toList
    let head := String.ofList parts.1
    let tail := String.ofList parts.2.2
    match (scope.capturesOf head).get? tail, scope.vars.get? ref with
    | some value, _ => pure value
    | none, some value => pure value
    | none, none =>
        if head = "env" then
          match scope.env tail with
          | some value => pure (.str value)
          | none => throw (.unresolvedVariable
              s!"environment variable {Text.repr tail} is not set")
        else if (scope.captures.get? head).isSome then
          throw (.unresolvedVariable
            (s!"step {Text.repr head} captured nothing called {Text.repr tail}; " ++
              s!"it has {showNames py (scope.capturesOf head).keys}"))
        else throw (.unresolvedVariable
          (s!"no step {Text.repr head} has run yet, " ++
            s!"and no variable is named {Text.repr ref}"))
  else
    match scope.vars.get? ref with
    | some value => pure value
    | none => throw (.unresolvedVariable
        (s!"undefined variable {Text.repr ref}; " ++
          s!"known: {showNames py scope.vars.keys}"))

/-- Replace every reference of a text by the text of its value. -/
def interpolate (scope : Scope) : List Piece → EStateM Exception σ (List Char)
  | [] => pure []
  | .char c :: rest => do
      let text ← interpolate scope rest
      pure (c :: text)
  | .reference body :: rest => do
      let value ← resolve py newUuid scope body
      let text ← interpolate scope rest
      pure ((value.text py).toList ++ text)

/-- A text that is nothing but one reference yields the value itself. -/
def substituteText (scope : Scope) (text : String) : EStateM Exception σ Value :=
  match pieces text with
  | [.reference body] => resolve py newUuid scope body
  | parts => do
      let chars ← interpolate py newUuid scope parts
      pure (.str (String.ofList chars))

mutual

/-- Resolve every reference in a structure. Keys are left alone. -/
def substitute (scope : Scope) : Value → EStateM Exception σ Value
  | .scalar (.str text) => substituteText py newUuid scope text
  | .scalar s => pure (.scalar s)
  | .list items => .list <$> substituteItems scope items
  | .dict entries => .dict <$> substituteEntries scope entries

def substituteItems (scope : Scope) : List Value → EStateM Exception σ (List Value)
  | [] => pure []
  | v :: rest => do
      let v ← substitute scope v
      let rest ← substituteItems scope rest
      pure (v :: rest)

def substituteEntries (scope : Scope) :
    List (Scalar × Value) → EStateM Exception σ (List (Scalar × Value))
  | [] => pure []
  | (key, v) :: rest => do
      let v ← substitute scope v
      let rest ← substituteEntries scope rest
      pure ((key, v) :: rest)

end

end

end Scope

end A2aItk.Acts
