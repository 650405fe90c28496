import A2aItk.Acts.Schema
import A2aItk.Acts.Scope

/-!
# Resolving assertion-bearing models

A model is written out without the fields it leaves empty, its references are
resolved, and the outcome is validated again.

## Implementation notes

A text field takes nothing but text, and an optional one `null` besides.
-/

namespace A2aItk.Acts

open Python

/-- A field the model declares as text. -/
def textField (v : Value) : Except Exception String :=
  match v.text? with
  | some text => .ok text
  | none => .error .validationError

/-- A field the model declares as text or nothing. -/
def optionalTextField : Option Value → Except Exception (Option String)
  | none => .ok none
  | some v => if v.isNull then .ok none else some <$> textField v

section Substitute

variable {σ : Type} (py : Interpreter) (newUuid : σ → String × σ) (scope : Scope)

namespace Scope

def substituteFields (fields : Fields) : EStateM Exception σ Fields :=
  fields.mapM fun field => do
    let v ← scope.substitute py newUuid field.2
    pure (field.1, v)

/-- An optional text, before it is validated. -/
def substituteOptional : Option String → EStateM Exception σ (Option Value)
  | none => pure none
  | some text => some <$> scope.substitute py newUuid (.str text)

/-- A field that holds one assertion. An empty one is not written out. -/
def substituteGiven (v : Value) : EStateM Exception σ Value :=
  if v.isNull then pure .null else scope.substitute py newUuid v

/-- Headers, before they are validated. -/
def substituteHeaders : Option (List (String × String)) → EStateM Exception σ (Option Fields)
  | none => pure none
  | some headers => do
      let fields ← scope.substituteFields py newUuid
        (headers.map fun header => (header.1, Value.str header.2))
      pure (some fields)

/-- A collection match, before it is validated. -/
def substituteCollection : Option CollectionMatch → EStateM Exception σ (Option (Value × Fields))
  | none => pure none
  | some pattern => do
      let path ← scope.substitute py newUuid (.str pattern.path)
      let fields ← scope.substituteFields py newUuid pattern.pattern
      pure (some (path, fields))

end Scope

def headersField : Option Fields → Except Exception (Option (List (String × String)))
  | none => .ok none
  | some fields => do
      let headers ← fields.mapM fun field => do
        let text ← textField field.2
        pure (field.1, text)
      pure (some headers)

def collectionField : Option (Value × Fields) → Except Exception (Option CollectionMatch)
  | none => .ok none
  | some (path, pattern) => do
      let path ← textField path
      pure (some ⟨path, pattern⟩)

namespace Scope

/-- `_resolved` of an `expect_error` block. -/
def resolvedError (expected : ExpectError) : EStateM Exception σ ExpectError := do
  let errorType ← scope.substituteGiven py newUuid expected.errorType
  let message ← scope.substituteGiven py newUuid expected.message
  let details ← scope.substituteGiven py newUuid expected.details
  if known : ∀ name ∈ errorType.text?, name ∈ ErrorType.names then
    pure { errorType, message, details, knownErrorName := known }
  else throw .validationError

/-- `_resolved` of a raw block. -/
def resolvedRaw (raw : RawBlock) : EStateM Exception σ RawBlock := do
  let path ← scope.substitute py newUuid (.str raw.path)
  let headers ← scope.substituteHeaders py newUuid raw.headers
  let body ← scope.substituteGiven py newUuid raw.body
  let bodyRaw ← scope.substituteOptional py newUuid raw.bodyRaw
  let path ← Effects.lift (textField path)
  let headers ← Effects.lift (headersField headers)
  let bodyRaw ← Effects.lift (optionalTextField bodyRaw)
  if consistent : body.isNull ∨ bodyRaw = none then
    pure { method := raw.method, path, headers, body, bodyRaw, bodyOrBodyRaw := consistent }
  else throw .validationError

/-- `_resolved` of a named assertion. Its source is kept as written. -/
def resolvedAssertion (assertion : NamedAssertion) : EStateM Exception σ NamedAssertion := do
  let id ← scope.substituteOptional py newUuid assertion.id
  let description ← scope.substituteOptional py newUuid assertion.description
  let path ← scope.substituteOptional py newUuid assertion.path
  let pattern ← scope.substituteGiven py newUuid assertion.pattern
  let any ← scope.substituteCollection py newUuid assertion.any
  let all ← scope.substituteCollection py newUuid assertion.all
  let noneOf ← scope.substituteCollection py newUuid assertion.noneOf
  let id ← Effects.lift (optionalTextField id)
  let description ← Effects.lift (optionalTextField description)
  let path ← Effects.lift (optionalTextField path)
  let any ← Effects.lift (collectionField any)
  let all ← Effects.lift (collectionField all)
  let noneOf ← Effects.lift (collectionField noneOf)
  if one : givenChecks pattern [any, all, noneOf] = 1 then
    pure { id, description, source := assertion.source, path, pattern, any, all, noneOf,
           needsExactlyOneCheck := one }
  else throw .validationError

end Scope

end Substitute

end A2aItk.Acts
