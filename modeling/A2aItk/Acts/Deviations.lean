import A2aItk.Acts.Gate
import A2aItk.Python.Dict
import A2aItk.Python.Patterns

/-!
# Deviation passes

Reruns of skipped tests against a SUT that is started differently, and how their
verdicts are spliced into the results of the run.

## Implementation notes

What a pass comes to is outside the program: `Deployment.runPass` gives the card
of its SUT and a verdict for each position of the narrowed suite, or an exception.
Whether a character beyond ASCII belongs to a word is the parameter `beyond`.
-/

namespace A2aItk.Acts

open Python

/-- `\w`: letters, digits and the underscore. -/
def isWord (beyond : Char → Bool) (c : Char) : Bool :=
  if c.toNat < 128 then c.isAlphanum || c == '_' else beyond c

/-- The deviations, in the order they run. -/
inductive Pass
  | reduced
  | auth
  deriving DecidableEq

namespace Pass

def all : List Pass := [reduced, auth]

/-- The environment variable the SUT must honour. -/
def envVar : Pass → String
  | reduced => "ITK_ACTS_REDUCED_CAPABILITIES"
  | auth => "ITK_ACTS_AUTH"

def capabilityHead : List Char := "agent card capability ".toList

def capabilityTail : List Char := "=True, needs False".toList

def securitySkip : List Char := "agent card authentication=False, needs True".toList

section Search

variable (beyond : Char → Bool)

/-- `_CAPABILITY_SKIP` at the start of a text, with the word it captures. A word is
taken whole: the character after it is no part of one. -/
def capabilityAt (s : List Char) : Option (List Char) :=
  if capabilityHead.isPrefixOf s then
    let rest := s.drop capabilityHead.length
    let word := rest.takeWhile (isWord beyond)
    if !word.isEmpty && capabilityTail.isPrefixOf (rest.drop word.length) then some word
    else none
  else none

/-- `_SECURITY_SKIP` at the start of a text. It captures nothing. -/
def securityAt (s : List Char) : Option (List Char) :=
  if securitySkip.isPrefixOf s then some [] else none

def matchAt : Pass → List Char → Option (List Char)
  | reduced => capabilityAt beyond
  | auth => securityAt

/-- `skip_pattern.search`, and what it captured. -/
def search (pass : Pass) (s : String) : Option String :=
  (Pattern.search (pass.matchAt beyond) s.toList).map String.ofList

/-- The pass may rerun the test with this result. -/
def claims (pass : Pass) (r : TestResult) : Prop :=
  (pass.search beyond (r.skipReason.getD "")).isSome = true

/-- `_skips_matching`. -/
def skipsMatching (pass : Pass) (results : List TestResult) : Dict String String :=
  Dict.ofList (results.filterMap fun r =>
    (pass.search beyond (r.skipReason.getD "")).map fun captured => (r.id, captured))

end Search

/-- `_capabilities_dropped`. -/
def capabilitiesDropped (card : Value) (names : List String) :
    Except PyError (Option String) := do
  let still ← names.filterM fun name => do
    let capabilities ← card.getOr "capabilities" .null
    let advertised ← (if capabilities.truthy then capabilities else .dict []).getOr name .null
    pure advertised.truthy
  if still.isEmpty then pure none
  else pure (some ("the card still advertises " ++ joinSorted still ++
    "; an agent honouring this must publish a smaller `capabilities` block"))

/-- `_security_declared`. -/
def securityDeclared (card : Value) : Except PyError (Option String) := do
  let absent ← ["securitySchemes", "securityRequirements"].filterM fun key => do
    let declared ← card.getOr key .null
    pure (!declared.truthy)
  if absent.isEmpty then pure none
  else pure (some ("the card declares no " ++ ", ".intercalate absent ++
    "; an agent honouring this must publish at least one security scheme and one " ++
    "security requirement (A2A §7.3)"))

/-- Why the SUT did not enter the mode, or `none` if it did. -/
def tookEffect (card : Value) (names : List String) : Pass → Except PyError (Option String)
  | reduced => capabilitiesDropped card names
  | auth => securityDeclared card

end Pass

/-- What starting a SUT and running the tests against it comes to. -/
inductive PassOutcome
  | actsRunError
  | raised (e : Exception)
  | ran (card : Value) (verdict : ℕ → Verdict)

/-- What surrounds a run: the SUT's own URL and those of its deviated instances,
when the caller started them, and what the passes come to. -/
structure Deployment where
  sutUrl : Option String := none
  deviationUrl : Pass → Option String := fun _ => none
  runPass : Pass → List Test → PassOutcome

namespace Deployment

variable (beyond : Char → Bool) (deployment : Deployment) (suite : List Test)

/-- The tests of the suite the pass can unblock. -/
def narrowed (pass : Pass) (results : List TestResult) : List Test :=
  suite.filter fun test => decide (test.id ∈ (pass.skipsMatching beyond results).keys)

/-- The results of a pass, by test, stamped with its configuration. -/
def replacement (pass : Pass) (tests : List Test) (verdict : ℕ → Verdict) :
    Dict String TestResult :=
  Dict.ofList (tests.mapIdx fun i test =>
    (test.id, { test.resultOf (verdict i) with configuration := some pass.envVar }))

/-- `_rerun_deviation`. -/
def rerunDeviation (pass : Pass) (results : List TestResult) :
    Except Exception (List TestResult) :=
  let blocked := pass.skipsMatching beyond results
  if blocked.entries.isEmpty then .ok results
  else
    let tests := narrowed beyond suite pass results
    match deployment.runPass pass tests with
    | .actsRunError => .ok results
    | .raised e => .error e
    | .ran card verdict =>
        match pass.tookEffect card blocked.values with
        | .error e => .error (.builtin e)
        | .ok (some _) => .ok results
        | .ok none => .ok (results.map fun r =>
            ((replacement pass tests verdict).get? r.id).getD r)

/-- An external SUT without an instance for the pass keeps its skips. -/
def available (pass : Pass) : Bool :=
  deployment.sutUrl.isNone || (deployment.deviationUrl pass).isSome

/-- One round of the loop over the deviations. -/
def deviate (pass : Pass) (results : List TestResult) : Except Exception (List TestResult) :=
  if deployment.available pass then deployment.rerunDeviation beyond suite pass results
  else .ok results

/-- The passes of a run, one after the other on each other's output. -/
def applyDeviations (results : List TestResult) : Except Exception (List TestResult) :=
  Pass.all.foldlM (fun results pass => deployment.deviate beyond suite pass results) results

end Deployment

end A2aItk.Acts
