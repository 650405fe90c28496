import A2aItk.Scenarios.Schema
import Mathlib.Data.List.Sort

/-!
# The SDK version matrix

`launcher/matrix.py`: which repository and ref each agent identifier stands
for, and which transports its line can speak.

## Implementation notes

A set of strings is a list, read through membership. The dict of rows is a list
whose keys are distinct.
-/

namespace A2aItk.Scenarios

open Python

/-- `sorted(set)`. -/
def sortedSet (l : List String) : List String := l.dedup.insertionSort (· ≤ ·)

/-- One (sdk, line) row. -/
structure MatrixEntry where
  sdk : String
  line : String
  repo : String
  ref : String
  transports : List String := transportOrder
  deriving DecidableEq

namespace MatrixEntry

/-- The identifier scenarios address the row by. -/
def agentId (e : MatrixEntry) : String := s!"{e.sdk}_{e.line}"

/-- Can this line speak every one of the transports? -/
def supports (e : MatrixEntry) (transports : List String) : Bool :=
  transports.all (· ∈ e.transports)

def keyLe (e f : MatrixEntry) : Prop := e.sdk < f.sdk ∨ e.sdk = f.sdk ∧ e.line ≤ f.line

instance : DecidableRel keyLe := fun e f =>
  inferInstanceAs (Decidable (e.sdk < f.sdk ∨ e.sdk = f.sdk ∧ e.line ≤ f.line))

end MatrixEntry

/-- Rows with distinct (sdk, line) keys. -/
structure Matrix where
  rows : List MatrixEntry
  distinct : (rows.map fun e => (e.sdk, e.line)).Nodup

/-- The end of a text, as `$` sees it: a final newline does not count. -/
def atEnd : List Char → Bool
  | [] => true
  | ['\n'] => true
  | _ => false

/-- What the agent id pattern matches after the line: an optional copy number. -/
def copySuffix : List Char → Bool
  | '_' :: rest =>
      !(rest.takeWhile Char.isDigit).isEmpty && atEnd (rest.dropWhile Char.isDigit)
  | rest => atEnd rest

/-- The sdk and line of an agent id, `<sdk>_v<num>` with an optional copy number. -/
def agentIdParts (agentId : String) : Option (String × String) :=
  match agentId.toList with
  | [] => none
  | c :: rest =>
      if !c.isLower then none
      else
        let inSdk := fun d : Char => d.isLower || d.isDigit
        match rest.dropWhile inSdk with
        | '_' :: 'v' :: tail =>
            let digits := tail.takeWhile Char.isDigit
            if digits.isEmpty || !copySuffix (tail.dropWhile Char.isDigit) then none
            else some (String.ofList (c :: rest.takeWhile inSdk), String.ofList ('v' :: digits))
        | _ => none

namespace Matrix

variable (m : Matrix)

/-- Every row, ordered by (sdk, line). -/
def entries : List MatrixEntry := m.rows.insertionSort MatrixEntry.keyLe

/-- The row an identifier stands for. Its exceptions are all `MatrixError`. -/
def resolve (agentId : String) : Except PyError MatrixEntry :=
  if agentId = sutId then
    throw (.valueError ("'current' is the SUT (Kind.MOUNT) and does not map through matrix; " ++
      "callers should special-case it before calling resolve()"))
  else match agentIdParts agentId with
    | none => throw (.valueError
        s!"invalid agent id {Text.repr agentId}; expected <sdk>_v<num>[_<instance>]")
    | some (sdk, line) =>
        match m.rows.find? fun e => e.sdk = sdk && e.line = line with
        | some entry => pure entry
        | none =>
            let known := ", ".intercalate (m.entries.map MatrixEntry.agentId)
            throw (.valueError (s!"unknown agent {Text.repr agentId} (sdk={Text.repr sdk}, " ++
              s!"line={Text.repr line}); matrix.yaml has: {known}"))

end Matrix

end A2aItk.Scenarios
