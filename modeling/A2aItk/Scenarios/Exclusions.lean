import A2aItk.Scenarios.Matrix

/-!
# Known failures

`scenarios/exclusions.py`: rules that take a combination of agents, transports
and behaviours out of a run.
-/

namespace A2aItk.Scenarios

open Python

/-- One rule: an empty or absent field means any. -/
structure Exclusion where
  reason : String
  agents : List String := []
  transports : List String := []
  behaviors : List String := []
  sutSdk : List String := []
  unlessSutSdk : List String := []
  streaming : Option Bool := none
  issue : Option String := none
  deriving DecidableEq

namespace Exclusion

variable (e : Exclusion)

def matchesScenario (sdks : List String) (protocols : Option (List String)) (behavior : String)
    (streaming : Bool) (sutSdk : Option String) : Bool :=
  if !e.agents.isEmpty && !e.agents.any (· ∈ sdks) then false
  -- any overlap excludes: a scenario cannot be skipped for some transports only
  else if !e.transports.isEmpty && !e.transports.any (· ∈ protocols.getD []) then false
  else if !e.behaviors.isEmpty && behavior ∉ e.behaviors then false
  else if !e.sutSdk.isEmpty && !sutSdk.any (· ∈ e.sutSdk) then false
  else if !e.unlessSutSdk.isEmpty && sutSdk.any (· ∈ e.unlessSutSdk) then false
  else !e.streaming.any (· ≠ streaming)

/-- The matcher, rendered compactly. -/
def scope : String :=
  let joined (l : List String) : String := "/".intercalate (sortedSet l)
  let bits :=
    (if e.sutSdk.isEmpty then [] else [s!"sut={joined e.sutSdk}"]) ++
    (if e.unlessSutSdk.isEmpty then [] else [s!"sut!={joined e.unlessSutSdk}"]) ++
    (if e.agents.isEmpty then [] else [joined e.agents]) ++
    (if e.transports.isEmpty then [] else [joined e.transports]) ++
    (if e.behaviors.isEmpty then [] else [joined e.behaviors]) ++
    (match e.streaming with
      | none => []
      | some true => ["streaming"]
      | some false => ["non-streaming"])
  if bits.isEmpty then "everything" else " ".intercalate bits

/-- Scope, the first sentence of the reason, and the issue link. -/
def summary : String :=
  let reason := [' '].intercalate (Text.words e.reason.toList)
  let first := Text.rstripChar '.' (Text.partition ['.', ' '] reason).1
  let link := match e.issue with
    | some issue => if issue.isEmpty then "" else s!" [{issue}]"
    | none => ""
  s!"{e.scope}: {String.ofList first}{link}"

/-- Scope, the whole reason, and the issue. -/
def describe : String :=
  let reason := [' '].intercalate (Text.words e.reason.toList)
  let link := match e.issue with
    | some issue => if issue.isEmpty then "" else s!" ({issue})"
    | none => ""
  s!"{e.scope}: {String.ofList reason}{link}"

end Exclusion

/-- The loaded rule set. -/
structure KnownFailures where
  exclusions : List Exclusion := []

/-- The first rule covering a scenario, if any. -/
def KnownFailures.find (known : KnownFailures) (sdks : List String)
    (protocols : Option (List String)) (behavior : String) (streaming : Bool)
    (sutSdk : Option String) : Option Exclusion :=
  known.exclusions.find? fun e => e.matchesScenario sdks protocols behavior streaming sutSdk

end A2aItk.Scenarios
