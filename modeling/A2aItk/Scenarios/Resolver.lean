import A2aItk.Scenarios.Exclusions

/-!
# Binding roles to agents

`scenarios/resolver.py`: a role-based declaration becomes executable scenarios,
one for each variant and group of agents, less what the matrix and the known
failures take out.

## Implementation notes

The lists a call appends to are the fields of the report it returns. A loop over
variants and groups raises at the first one that does.
-/

namespace A2aItk.Scenarios

open Python

/-- What resolution produced, and what it left out. -/
structure ResolutionReport where
  scenarios : List ResolvedScenario := []
  skipped : List (String × String) := []
  trimmed : List (String × String × String) := []

namespace ResolutionReport

/-- Two reports, one behind the other. -/
def append (a b : ResolutionReport) : ResolutionReport :=
  ⟨a.scenarios ++ b.scenarios, a.skipped ++ b.skipped, a.trimmed ++ b.trimmed⟩

/-- The reports of several declarations as one. -/
def join (reports : List ResolutionReport) : ResolutionReport := reports.foldr append {}

/-- The scenarios of a report that was joined. -/
theorem join_scenarios (reports : List ResolutionReport) :
    (join reports).scenarios = reports.flatMap scenarios := by
  induction reports with
  | nil => rfl
  | cons report rest ih =>
      change report.scenarios ++ (join rest).scenarios = _
      rw [ih]
      rfl

end ResolutionReport

/-- A traversal needs two agents. -/
def minAgents : Nat := 2

/-- A legacy scenario is taken as it is. -/
def fromLegacy (scenario : LegacyScenario) : ResolvedScenario where
  name := scenario.name
  sdks := scenario.sdks
  behavior := scenario.behavior
  edges := scenario.edges
  protocols := scenario.protocols
  streaming := scenario.streaming
  buildSubtests := scenario.buildSubtests

/-- `repr` of a list of strings. -/
def reprList (l : List String) : String :=
  "[" ++ ", ".intercalate (l.map Text.repr) ++ "]"

/-- Why a declaration is not for this system under test, if it is not. -/
def skipReason (scenario : TraversalScenarioV1) (sutSdk : Option String) : Option String :=
  match scenario.testWhen, sutSdk with
  | some admitted, some sut =>
      if sut ∈ admitted then none
      else some s!"test_when.sut_sdk is {reprList admitted}, SUT is {Text.repr sut}"
  | _, _ => none

section Peers

variable (scenario : TraversalScenarioV1) (matrix : Matrix)

/-- Requested transports an agent can speak. What the matrix does not know is
assumed to speak them all. -/
def intersect (agentId : String) (transports : List Transport) : List Transport :=
  match matrix.resolve agentId with
  | .ok entry => transports.filter (·.value ∈ entry.transports)
  | .error _ => transports

/-- The agent speaks every one of these transports. -/
def supportsAll (agentId : String) (transports : List Transport) : Bool :=
  (intersect matrix agentId transports).length = transports.length

/-- The SUT's own released lines, where the scenario asks for them. -/
def ownLines (transports : List Transport) (sutSdk : Option String) (exclude : List String) :
    List String :=
  if !scenario.roles.includeOwnLines then []
  else match sutSdk with
    | none => []
    | some sut =>
        (matrix.entries.filter fun e =>
          e.sdk = sut && e.agentId ∉ exclude &&
            (scenario.expand = .perPeer || e.supports (transports.map Transport.value))).map
          MatrixEntry.agentId

/-- Peer identifiers, in scenario order, or matrix order for `all`. -/
def peerIds (transports : List Transport) (sutSdk : Option String) :
    Except PyError (List String) :=
  match scenario.roles.peers with
  | .all =>
      if scenario.expand = .perPeer then pure (matrix.entries.map MatrixEntry.agentId)
      else pure ((matrix.entries.filter fun e =>
        e.supports (transports.map Transport.value)).map MatrixEntry.agentId)
  | .named peers => do
      let ids ← peers.mapM fun peer =>
        match matrix.resolve peer.agentId with
        | .ok _ => pure peer.agentId
        | .error (.valueError message) =>
            throw (.valueError s!"{Text.repr scenario.name}: {message}")
        | .error e => throw e
      pure (ids ++ ownLines scenario matrix transports sutSdk ids)

/-- One group of agents, the transports it runs over, and the peer it is named
after. -/
structure Group where
  sdks : List String
  used : List Transport
  peerLabel : Option String

/-- The system under test, if it takes part. -/
def sut : List String := if scenario.roles.includeSut then [sutId] else []

/-- The agent groups this scenario runs as. -/
def groups (transports : List Transport) (sutSdk : Option String) :
    Except PyError (List Group) := do
  let peers ← peerIds scenario matrix transports sutSdk
  match scenario.expand with
  | .together =>
      let usable := peers.filter fun p => supportsAll matrix p transports
      pure [⟨sut scenario ++ usable, transports, none⟩]
  | .perPeer =>
      pure (peers.filterMap fun peer =>
        let usable := intersect matrix peer transports
        if usable.isEmpty then none else some ⟨sut scenario ++ [peer], usable, some peer⟩)

end Peers

section Names

variable (scenario : TraversalScenarioV1)

/-- Which axes vary: behaviour, transports, streaming. -/
structure MultiAxes where
  behavior : Bool
  transports : Bool
  streaming : Bool

/-- Which axes of a declaration have more than one value, and so show in its names. -/
def multiAxes : MultiAxes where
  behavior := scenario.behaviorVariants.length > 1
  transports := scenario.transportVariants.length > 1
  streaming := scenario.streamingOptions.length > 1

/-- `base` with the peer's label in its place, or at its end. -/
def labelled (base peerLabel : String) : String :=
  let parts := Text.split peerPlaceholder.toList base.toList
  if parts.length > 1 then String.ofList (peerLabel.toList.intercalate parts)
  else s!"{base} - {peerLabel}"

/-- The name of a scenario: that of the declaration, the peer, and the value on every axis that
has several. -/
def nameOf (behavior : Behavior) (transports : List Transport) (streaming : Bool)
    (multi : MultiAxes) (peerLabel : Option String) : String :=
  let base := match peerLabel with
    | some label => labelled scenario.name label
    | none => scenario.name
  let parts := [base] ++
    (if multi.behavior then [behavior.value] else []) ++
    (if multi.transports then ["+".intercalate (transports.map Transport.value)] else []) ++
    (if multi.streaming then [if streaming then "streaming" else "non-streaming"] else [])
  " - ".intercalate parts

end Names

section Expansion

/-- The agents that stay, and those a known failure removes with its rule. -/
def applyExclusions (sdks : List String) (known : KnownFailures) (transports : List Transport)
    (behavior : Behavior) (streaming : Bool) (sutSdk : Option String) :
    List String × List (String × Exclusion) :=
  let hit := fun agent : String =>
    if agent = sutId then none
    else known.find [sutId, agent] (some (transports.map Transport.value)) behavior.value
      streaming sutSdk
  (sdks.filter fun agent => (hit agent).isNone,
    sdks.filterMap fun agent => (hit agent).map fun rule => (agent, rule))

/-- One combination of the plural fields. -/
structure Variant where
  behavior : Behavior
  transports : List Transport
  streaming : Bool

/-- The values of all axes in every combination. -/
def variants (scenario : TraversalScenarioV1) : List Variant :=
  scenario.behaviorVariants.flatMap fun behavior =>
    scenario.transportVariants.flatMap fun transports =>
      scenario.streamingOptions.map fun streaming => ⟨behavior, transports, streaming⟩

variable (scenario : TraversalScenarioV1) (matrix : Matrix) (sutSdk : Option String)
  (known : KnownFailures)

/-- `None` when the author gave an explicit edge list: those indices are
positional. -/
def resolvedTopology : Option Topology :=
  if scenario.edges.isSome then none else some scenario.topology

/-- The error for a traversal of fewer agents than two. -/
def tooFewAgents (v : Variant) (sdks : List String) : PyError :=
  .valueError (s!"{Text.repr scenario.name}: resolves to {sdks.length} agent(s) " ++
    s!"({reprList sdks}) for transports {reprList (v.transports.map Transport.value)}; " ++
    s!"a traversal needs at least {minAgents}. " ++
    "Check the peer list against matrix.yaml transports.")

/-- One group of one variant: a scenario, trimmed where rules removed agents, or
a skip. -/
def expandGroup (v : Variant) (group : Group) : Except PyError ResolutionReport := do
  if group.sdks.length < minAgents then throw (tooFewAgents scenario v group.sdks)
  let name := nameOf scenario v.behavior group.used v.streaming (multiAxes scenario)
    group.peerLabel
  let (kept, dropped) :=
    applyExclusions group.sdks known group.used v.behavior v.streaming sutSdk
  let restricted ← restrictToAvailable group.sdks (resolvedTopology scenario) scenario.edges
    kept minAgents
  match restricted with
  | none =>
      if dropped.isEmpty then throw .typeError
      let why := "; ".intercalate (dropped.map fun d => s!"{d.1} — {d.2.summary}")
      pure { skipped := [(name, s!"known failure — {why}")] }
  | some (finalSdks, edges) =>
      pure {
        trimmed := dropped.map fun d => (name, d.1, d.2.summary)
        scenarios := [{
          name
          sdks := finalSdks
          behavior := v.behavior.value
          edges
          protocols := some (group.used.map Transport.value)
          streaming := v.streaming
          buildSubtests := scenario.buildSubtests
          tier := scenario.tier.value
          topology := resolvedTopology scenario }] }

/-- Every group of one variant. -/
def expandVariant (v : Variant) : Except PyError ResolutionReport := do
  let found ← groups scenario matrix v.transports sutSdk
  let reports ← found.mapM (expandGroup scenario sutSdk known v)
  pure (.join reports)

/-- Cartesian product over the plural fields, then over peers if per-peer. -/
def expand : Except PyError ResolutionReport := do
  let reports ← (variants scenario).mapM (expandVariant scenario matrix sutSdk known)
  pure (.join reports)

end Expansion

/-- A scenario of either schema. -/
inductive Declared
  | legacy (scenario : LegacyScenario)
  | traversal (scenario : TraversalScenarioV1)

/-- What becomes of one declaration. -/
def resolveOne (matrix : Matrix) (sutSdk : Option String) (known : KnownFailures) :
    Declared → Except PyError ResolutionReport
  | .legacy scenario => pure { scenarios := [fromLegacy scenario] }
  | .traversal scenario =>
      match skipReason scenario sutSdk with
      | some why => pure { skipped := [(scenario.name, why)] }
      | none => expand scenario matrix sutSdk known

/-- The first name that occurs twice. -/
def duplicateName (seen : List String) : List String → Option String
  | [] => none
  | name :: rest => if name ∈ seen then some name else duplicateName (name :: seen) rest

/-- Resolve a batch that may mix both schemas. -/
def resolveAll (scenarios : List Declared) (matrix : Matrix) (sutSdk : Option String)
    (known : KnownFailures) : Except PyError ResolutionReport := do
  let reports ← scenarios.mapM (resolveOne matrix sutSdk known)
  let report := ResolutionReport.join reports
  match duplicateName [] (report.scenarios.map ResolvedScenario.name) with
  | some name => throw (.valueError (s!"duplicate scenario name {Text.repr name}. Results are " ++
      "keyed by name, so one would overwrite the other and the run would " ++
      "silently test less than it reports."))
  | none => pure report

section Facts

/-- No duplicate is found just where the names are distinct. -/
theorem duplicateName_eq_none_iff {seen names : List String} :
    duplicateName seen names = none ↔ names.Nodup ∧ ∀ name ∈ names, name ∉ seen := by
  induction names generalizing seen with
  | nil => simp [duplicateName]
  | cons name rest ih =>
      rw [duplicateName, List.nodup_cons]
      by_cases hseen : name ∈ seen
      · simp [hseen]
      · rw [if_neg hseen, ih]
        simp only [List.mem_cons, not_or, forall_eq_or_imp, hseen, not_false_eq_true, true_and]
        constructor
        · rintro ⟨hnodup, hnew⟩
          exact ⟨⟨fun hin => (hnew name hin).1 rfl, hnodup⟩, fun n hn => (hnew n hn).2⟩
        · rintro ⟨⟨hout, hnodup⟩, hnew⟩
          exact ⟨hnodup, fun n hn => ⟨fun heq => hout (heq ▸ hn), hnew n hn⟩⟩

variable {declared : List Declared} {matrix : Matrix} {sutSdk : Option String}
  {known : KnownFailures} {batch : ResolutionReport}

/-- A batch resolves if every declaration does and no two scenarios share a name. -/
theorem resolveAll_eq_ok_iff :
    resolveAll declared matrix sutSdk known = .ok batch ↔
      ∃ reports, List.Forall₂ (fun d r => resolveOne matrix sutSdk known d = .ok r)
          declared reports ∧
        batch = .join reports ∧ (batch.scenarios.map ResolvedScenario.name).Nodup := by
  rw [resolveAll, bind_eq_ok_iff]
  constructor
  · rintro ⟨reports, hreports, h⟩
    dsimp only at h
    split at h
    · cases h
    · rename_i hnone
      obtain rfl := Except.ok.inj h
      exact ⟨reports, mapM_eq_ok_iff.mp hreports, rfl, (duplicateName_eq_none_iff.mp hnone).1⟩
  · rintro ⟨reports, hreports, rfl, hnodup⟩
    refine ⟨reports, mapM_eq_ok_iff.mpr hreports, ?_⟩
    have hnone := duplicateName_eq_none_iff.mpr ⟨hnodup, fun name _ => List.not_mem_nil⟩
    simp only [hnone, pure_eq_ok]

/-- What a batch resolves to is what its declarations resolve to. -/
theorem mem_resolveAll_iff (h : resolveAll declared matrix sutSdk known = .ok batch)
    {s : ResolvedScenario} :
    s ∈ batch.scenarios ↔
      ∃ d ∈ declared, ∃ report, resolveOne matrix sutSdk known d = .ok report ∧
        s ∈ report.scenarios := by
  obtain ⟨reports, hreports, rfl, -⟩ := resolveAll_eq_ok_iff.mp h
  rw [ResolutionReport.join_scenarios, mem_flatMap_of_forall₂ hreports]

/-- Every declaration of a batch that resolves, resolves. -/
theorem exists_resolveOne (h : resolveAll declared matrix sutSdk known = .ok batch)
    {d : Declared} (hd : d ∈ declared) :
    ∃ report, resolveOne matrix sutSdk known d = .ok report := by
  obtain ⟨reports, hreports, -, -⟩ := resolveAll_eq_ok_iff.mp h
  obtain ⟨report, -, hres⟩ := exists_left_of_mem hreports.flip hd
  exact ⟨report, hres⟩

variable {scenario : TraversalScenarioV1} {report : ResolutionReport}

/-- A declaration that is skipped is reported. -/
theorem resolveOne_of_skipReason {why : String} (h : skipReason scenario sutSdk = some why) :
    resolveOne matrix sutSdk known (.traversal scenario) =
      .ok { skipped := [(scenario.name, why)] } := by
  simp [resolveOne, h]

/-- One that is not is expanded. -/
theorem resolveOne_of_admitted (h : skipReason scenario sutSdk = none) :
    resolveOne matrix sutSdk known (.traversal scenario) =
      expand scenario matrix sutSdk known := by
  simp [resolveOne, h]

/-- A variant is expanded group by group. -/
theorem expandVariant_eq_ok_iff {v : Variant} :
    expandVariant scenario matrix sutSdk known v = .ok report ↔
      ∃ found reports, groups scenario matrix v.transports sutSdk = .ok found ∧
        List.Forall₂ (fun g r => expandGroup scenario sutSdk known v g = .ok r) found reports ∧
        report = .join reports := by
  rw [expandVariant, bind_eq_ok_iff]
  constructor
  · rintro ⟨found, hfound, h⟩
    obtain ⟨reports, hreports, h⟩ := bind_eq_ok_iff.mp h
    exact ⟨found, reports, hfound, mapM_eq_ok_iff.mp hreports, (Except.ok.inj h).symm⟩
  · rintro ⟨found, reports, hfound, hreports, rfl⟩
    refine ⟨found, hfound, ?_⟩
    simp only [mapM_eq_ok_iff.mpr hreports, ok_bind, pure_eq_ok]

/-- Its scenarios come from its groups. -/
theorem mem_expandVariant_iff {v : Variant} {found : List Group}
    (hfound : groups scenario matrix v.transports sutSdk = .ok found)
    (h : expandVariant scenario matrix sutSdk known v = .ok report) {s : ResolvedScenario} :
    s ∈ report.scenarios ↔ ∃ g ∈ found, ∃ r, expandGroup scenario sutSdk known v g = .ok r ∧
      s ∈ r.scenarios := by
  obtain ⟨found', reports, hfound', hreports, rfl⟩ := expandVariant_eq_ok_iff.mp h
  obtain rfl := Except.ok.inj (hfound.symm.trans hfound')
  rw [ResolutionReport.join_scenarios, mem_flatMap_of_forall₂ hreports]

/-- Where the whole expands, every variant does. -/
theorem exists_expandVariant (h : expand scenario matrix sutSdk known = .ok report)
    {v : Variant} (hv : v ∈ variants scenario) :
    ∃ r, expandVariant scenario matrix sutSdk known v = .ok r := by
  obtain ⟨reports, hreports, -⟩ := bind_eq_ok_iff.mp h
  obtain ⟨r, -, hr⟩ := exists_left_of_mem (mapM_eq_ok_iff.mp hreports).flip hv
  exact ⟨r, hr⟩

/-- The scenarios of an expansion come from its variants. -/
theorem mem_expand_iff (h : expand scenario matrix sutSdk known = .ok report)
    {s : ResolvedScenario} :
    s ∈ report.scenarios ↔ ∃ v ∈ variants scenario, ∃ r,
      expandVariant scenario matrix sutSdk known v = .ok r ∧ s ∈ r.scenarios := by
  obtain ⟨reports, hreports, h⟩ := bind_eq_ok_iff.mp h
  obtain rfl := Except.ok.inj h
  rw [ResolutionReport.join_scenarios, mem_flatMap_of_forall₂ (mapM_eq_ok_iff.mp hreports)]

/-- Transports are told apart by how they are spelled. -/
theorem transport_value_injective : Function.Injective Transport.value := by
  intro a b h
  revert h
  cases a <;> cases b <;> decide

/-- The scenario a group is emitted as, over the agents and edges left. -/
def emitted (scenario : TraversalScenarioV1) (v : Variant) (group : Group)
    (sdks : List String) (edges : Option (List String)) : ResolvedScenario where
  name := nameOf scenario v.behavior group.used v.streaming (multiAxes scenario) group.peerLabel
  sdks
  behavior := v.behavior.value
  edges
  protocols := some (group.used.map Transport.value)
  streaming := v.streaming
  buildSubtests := scenario.buildSubtests
  tier := scenario.tier.value
  topology := resolvedTopology scenario

/-- What a group comes to: it is skipped because rules take agents out of it, or
emitted over the agents that stay. -/
theorem expandGroup_cases {v : Variant} {group : Group}
    (h : expandGroup scenario sutSdk known v group = .ok report) :
    minAgents ≤ group.sdks.length ∧
    ((restrictToAvailable group.sdks (resolvedTopology scenario) scenario.edges
          (applyExclusions group.sdks known group.used v.behavior v.streaming sutSdk).1 minAgents =
        .ok none ∧
      (applyExclusions group.sdks known group.used v.behavior v.streaming sutSdk).2 ≠ [] ∧
      ∃ why, report = { skipped := [((emitted scenario v group [] none).name, why)] }) ∨
    ∃ sdks edges,
      restrictToAvailable group.sdks (resolvedTopology scenario) scenario.edges
          (applyExclusions group.sdks known group.used v.behavior v.streaming sutSdk).1 minAgents =
        .ok (some (sdks, edges)) ∧
      report = {
        scenarios := [emitted scenario v group sdks edges]
        trimmed :=
          (applyExclusions group.sdks known group.used v.behavior v.streaming sutSdk).2.map fun d =>
            ((emitted scenario v group sdks edges).name, d.1, d.2.summary) }) := by
  unfold expandGroup at h
  by_cases hfew : group.sdks.length < minAgents
  · simp [hfew] at h
  · rw [if_neg hfew] at h
    dsimp only at h
    refine ⟨not_lt.mp hfew, ?_⟩
    obtain ⟨restricted, hrestricted, h⟩ := bind_eq_ok_iff.mp h
    cases restricted with
    | none =>
        left
        dsimp only at h
        split at h
        · cases h
        · rename_i hdropped
          exact ⟨hrestricted, by simpa using hdropped, _, (Except.ok.inj h).symm⟩
    | some pair => exact Or.inr ⟨pair.1, pair.2, hrestricted, (Except.ok.inj h).symm⟩

/-- A group that is expanded has enough agents. -/
theorem length_of_expandGroup {v : Variant} {group : Group}
    (h : expandGroup scenario sutSdk known v group = .ok report) :
    minAgents ≤ group.sdks.length :=
  (expandGroup_cases h).1

end Facts

end A2aItk.Scenarios
