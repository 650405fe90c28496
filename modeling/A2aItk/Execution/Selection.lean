import A2aItk.Scenarios.Resolver

/-!
# What a batch can still run

`_select_runnable` of `itk_runner.py`: a scenario is kept as authored when every
agent it needs came up, rebuilt when a missing one can be dropped, and given up
otherwise.
-/

namespace A2aItk.Execution

open Python Scenarios
open Traversal (AgentTable)

/-- A scenario with the agents and edges it is run with. -/
structure Runnable where
  scenario : ResolvedScenario
  sdks : List String
  edges : Option (List String)

/-- What can be run, and what missing agents cost. -/
structure Selection where
  runnable : List Runnable := []
  trimmed : List (String × List String) := []
  skipped : List (String × List String) := []

namespace Selection

def append (a b : Selection) : Selection :=
  ⟨a.runnable ++ b.runnable, a.trimmed ++ b.trimmed, a.skipped ++ b.skipped⟩

def join (parts : List Selection) : Selection := parts.foldr append {}

theorem join_runnable (parts : List Selection) :
    (join parts).runnable = parts.flatMap runnable := by
  induction parts with
  | nil => rfl
  | cons part rest ih =>
      change part.runnable ++ (join rest).runnable = _
      rw [ih]
      rfl

theorem join_skipped (parts : List Selection) :
    (join parts).skipped = parts.flatMap skipped := by
  induction parts with
  | nil => rfl
  | cons part rest ih =>
      change part.skipped ++ (join rest).skipped = _
      rw [ih]
      rfl

end Selection

/-- The ids of the agents that came up. -/
def startedIds (agents : AgentTable) : List String := agents.endpoints.map Prod.fst

def missingAgents (started : List String) (s : ResolvedScenario) : List String :=
  s.sdks.filter (· ∉ started)

/-- One turn of the loop over the batch. -/
def selectOne (started : List String) (s : ResolvedScenario) : Except PyError Selection := do
  let missing := missingAgents started s
  if missing.isEmpty then return { runnable := [⟨s, s.sdks, s.edges⟩] }
  match ← restrictToAvailable s.sdks s.topology s.edges started with
  | none => return { skipped := [(s.name, missing)] }
  | some (kept, keptEdges) =>
      return { runnable := [⟨s, kept, keptEdges⟩], trimmed := [(s.name, missing)] }

/-- What each scenario of the batch can still run without the missing agents. -/
def selectRunnable (scenarios : List ResolvedScenario) (agents : AgentTable) :
    Except PyError Selection := do
  let parts ← scenarios.mapM (selectOne (startedIds agents))
  pure (.join parts)

section Facts

variable {scenarios : List ResolvedScenario} {agents : AgentTable} {started : List String}
  {s : ResolvedScenario} {r : Runnable} {selection part : Selection}

theorem missingAgents_eq_nil_iff :
    missingAgents started s = [] ↔ ∀ a ∈ s.sdks, a ∈ started := by
  simp [missingAgents]

/-- A scenario whose agents all came up runs as authored. -/
theorem selectOne_whole (h : ∀ a ∈ s.sdks, a ∈ started) :
    selectOne started s = .ok { runnable := [⟨s, s.sdks, s.edges⟩] } := by
  simp [selectOne, missingAgents_eq_nil_iff.mpr h]

/-- What one turn of the loop does: the scenario runs as authored, runs over the
agents that are left, or is skipped. -/
theorem selectOne_cases (h : selectOne started s = .ok part) :
    (missingAgents started s = [] ∧ part = { runnable := [⟨s, s.sdks, s.edges⟩] }) ∨
    (missingAgents started s ≠ [] ∧
      restrictToAvailable s.sdks s.topology s.edges started = .ok none ∧
      part = { skipped := [(s.name, missingAgents started s)] }) ∨
    (missingAgents started s ≠ [] ∧ ∃ kept keptEdges,
      restrictToAvailable s.sdks s.topology s.edges started = .ok (some (kept, keptEdges)) ∧
      part = {
        runnable := [⟨s, kept, keptEdges⟩]
        trimmed := [(s.name, missingAgents started s)] }) := by
  unfold selectOne at h
  by_cases hmissing : missingAgents started s = []
  · left
    simp only [hmissing, List.isEmpty_nil, if_true] at h
    exact ⟨hmissing, (Except.ok.inj h).symm⟩
  · right
    have hnot : ¬ (missingAgents started s).isEmpty = true := by simpa using hmissing
    simp only [if_neg hnot] at h
    obtain ⟨restricted, hrestricted, h⟩ := bind_eq_ok_iff.mp h
    cases restricted with
    | none => exact Or.inl ⟨hmissing, hrestricted, (Except.ok.inj h).symm⟩
    | some pair =>
        exact Or.inr ⟨hmissing, pair.1, pair.2, hrestricted, (Except.ok.inj h).symm⟩

theorem selectOne_scenario (h : selectOne started s = .ok part) (hr : r ∈ part.runnable) :
    r.scenario = s := by
  obtain ⟨-, rfl⟩ | ⟨-, -, rfl⟩ | ⟨-, kept, keptEdges, -, rfl⟩ := selectOne_cases h
  · rw [List.mem_singleton.mp hr]
  · simp at hr
  · rw [List.mem_singleton.mp hr]

theorem exists_selectOne (started : List String) (s : ResolvedScenario) :
    ∃ part, selectOne started s = .ok part := by
  unfold selectOne
  dsimp only
  split
  · exact ⟨_, rfl⟩
  · obtain ⟨restricted, h⟩ := exists_restrictToAvailable s.sdks s.topology s.edges started
    rw [h]
    cases restricted <;> exact ⟨_, rfl⟩

/-- A scenario only runs over agents that came up. -/
theorem selectOne_started (h : selectOne started s = .ok part) (hr : r ∈ part.runnable) :
    ∀ a ∈ r.sdks, a ∈ started := by
  obtain ⟨hwhole, rfl⟩ | ⟨-, -, rfl⟩ | ⟨-, kept, keptEdges, hrestricted, rfl⟩ := selectOne_cases h
  · rw [List.mem_singleton.mp hr]
    exact missingAgents_eq_nil_iff.mp hwhole
  · simp at hr
  · rw [List.mem_singleton.mp hr, restrictToAvailable_kept hrestricted]
    intro a ha
    simpa using (List.mem_filter.mp ha).2

/-- Edges an author wrote run whole or not at all. -/
theorem selectOne_explicit {es : List String} (htopology : s.topology = none)
    (hedges : s.edges = some es) (h : selectOne started s = .ok part) (hr : r ∈ part.runnable) :
    r = ⟨s, s.sdks, some es⟩ := by
  obtain ⟨-, rfl⟩ | ⟨-, -, rfl⟩ | ⟨hmissing, kept, keptEdges, hrestricted, rfl⟩ :=
    selectOne_cases h
  · rw [List.mem_singleton.mp hr, hedges]
  · simp at hr
  · have hout : ∃ a ∈ s.sdks, a ∉ started := by
      by_contra hall
      push Not at hall
      exact hmissing (missingAgents_eq_nil_iff.mpr hall)
    rw [htopology, hedges, restrictToAvailable_missing es hout] at hrestricted
    cases hrestricted

theorem selectRunnable_eq_ok_iff :
    selectRunnable scenarios agents = .ok selection ↔
      ∃ parts, List.Forall₂ (fun s part => selectOne (startedIds agents) s = .ok part)
        scenarios parts ∧ selection = .join parts := by
  rw [selectRunnable, bind_eq_ok_iff]
  constructor
  · rintro ⟨parts, hparts, h⟩
    exact ⟨parts, mapM_eq_ok_iff.mp hparts, (Except.ok.inj h).symm⟩
  · rintro ⟨parts, hparts, rfl⟩
    exact ⟨parts, mapM_eq_ok_iff.mpr hparts, rfl⟩

/-- The selection never raises. -/
theorem exists_selectRunnable (scenarios : List ResolvedScenario) (agents : AgentTable) :
    ∃ selection, selectRunnable scenarios agents = .ok selection := by
  obtain ⟨parts, hparts⟩ := exists_forall₂ fun s (_ : s ∈ scenarios) =>
    exists_selectOne (startedIds agents) s
  exact ⟨_, selectRunnable_eq_ok_iff.mpr ⟨parts, hparts, rfl⟩⟩

theorem mem_selectRunnable_iff (h : selectRunnable scenarios agents = .ok selection) :
    r ∈ selection.runnable ↔ r.scenario ∈ scenarios ∧
      ∃ part, selectOne (startedIds agents) r.scenario = .ok part ∧ r ∈ part.runnable := by
  obtain ⟨parts, hparts, rfl⟩ := selectRunnable_eq_ok_iff.mp h
  rw [Selection.join_runnable, mem_flatMap_of_forall₂ hparts]
  constructor
  · rintro ⟨s, hs, part, hsel, hr⟩
    obtain rfl := selectOne_scenario hsel hr
    exact ⟨hs, part, hsel, hr⟩
  · rintro ⟨hs, part, hsel, hr⟩
    exact ⟨r.scenario, hs, part, hsel, hr⟩

end Facts

end A2aItk.Execution
