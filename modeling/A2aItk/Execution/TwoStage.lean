import A2aItk.Execution.ExplicitEdges

/-!
# Restriction in two stages

The resolver takes out what a rule excludes, the runner what did not start. The
two together are one restriction to what survives both, so it does not matter
where an agent is lost.
-/

namespace A2aItk.Execution

open Python Scenarios
open Traversal (AgentTable)

/-- A scenario carries the edges of its shape; without a shape they are an
author's own, or none. -/
def CarriesOwnEdges (s : ResolvedScenario) : Prop :=
  ∀ topology, s.topology = some topology → topologyToEdges topology s.sdks.length = .ok s.edges

/-- What a turn of the runner's loop leaves of a scenario. -/
def Selection.leaves (part : Selection) : Option (List String × Option (List String)) :=
  part.runnable.head?.map fun r => (r.sdks, r.edges)

/-- The runner's decision about one scenario. -/
def restrictToStarted (started : List String) (s : ResolvedScenario) :
    Except PyError (Option (List String × Option (List String))) :=
  Selection.leaves <$> selectOne started s

/-- The resolver's restriction, and the runner's of what that left. -/
def restrictTwice (s : ResolvedScenario) (usable started : List String) :
    Except PyError (Option (List String × Option (List String))) := do
  match ← restrictToAvailable s.sdks s.topology s.edges usable minAgents with
  | none => pure none
  | some (sdks, edges) => restrictToStarted started { s with sdks, edges }

section Restriction

variable {sdks usable : List String} {topology : Topology} {least : Nat}

theorem restrictToAvailable_few (topology : Option Topology) (edges : Option (List String))
    (h : (sdks.filter (· ∈ usable)).length < least) :
    restrictToAvailable sdks topology edges usable least = .ok none :=
  if_pos h

/-- A named topology is rebuilt over what is left of it. -/
theorem restrictToAvailable_rebuilt (edges : Option (List String))
    (h : least ≤ (sdks.filter (· ∈ usable)).length) :
    restrictToAvailable sdks (some topology) edges usable least =
      (topologyToEdges topology (sdks.filter (· ∈ usable)).length).map
        fun rebuilt => some (sdks.filter (· ∈ usable), rebuilt) := by
  simp only [restrictToAvailable, if_neg (Nat.not_lt.mpr h), Option.isNone_some, Bool.and_false,
    Bool.false_eq_true, if_false]
  cases topologyToEdges topology (sdks.filter (· ∈ usable)).length <;> rfl

/-- The complete digraph stays complete. -/
theorem restrictToAvailable_complete (h : least ≤ (sdks.filter (· ∈ usable)).length) :
    restrictToAvailable sdks none none usable least =
      .ok (some (sdks.filter (· ∈ usable), none)) := by
  simp [restrictToAvailable, Nat.not_lt.mpr h]

/-- A shape is drawn over any two agents or more. -/
theorem exists_topologyToEdges {n : Nat} (topology : Topology) (h : minNodes ≤ n) :
    ∃ edges, topologyToEdges topology n = .ok edges := by
  simp only [topologyToEdges, if_neg (Nat.not_lt.mpr h)]
  cases topology <;> exact ⟨_, rfl⟩

end Restriction

section Runner

variable {started : List String} {s : ResolvedScenario}

theorem restrictToStarted_of_missing (h : missingAgents started s ≠ []) :
    restrictToStarted started s = restrictToAvailable s.sdks s.topology s.edges started := by
  have hnot : ¬ (missingAgents started s).isEmpty = true := by simpa using h
  obtain ⟨restricted, hrestricted⟩ :=
    exists_restrictToAvailable s.sdks s.topology s.edges started
  simp only [restrictToStarted, selectOne, if_neg hnot, hrestricted, ok_bind]
  cases restricted <;> rfl

/-- What is left of a scenario is told by its agents and edges. -/
theorem restrictToStarted_congr {t : ResolvedScenario} (hsdks : s.sdks = t.sdks)
    (htopology : s.topology = t.topology) (hedges : s.edges = t.edges) :
    restrictToStarted started s = restrictToStarted started t := by
  have hmissing : missingAgents started s = missingAgents started t := by
    rw [missingAgents, hsdks, missingAgents]
  by_cases hnil : missingAgents started s = []
  · rw [restrictToStarted, selectOne_whole (missingAgents_eq_nil_iff.mp hnil), restrictToStarted,
      selectOne_whole (missingAgents_eq_nil_iff.mp (hmissing ▸ hnil))]
    simp only [hsdks, hedges]
    rfl
  · rw [restrictToStarted_of_missing hnil, restrictToStarted_of_missing (hmissing ▸ hnil), hsdks,
      htopology, hedges]

/-- The shortcut for a scenario that misses nothing is a restriction as well. -/
theorem restrictToStarted_eq (hown : CarriesOwnEdges s) (hlen : minNodes ≤ s.sdks.length) :
    restrictToStarted started s = restrictToAvailable s.sdks s.topology s.edges started := by
  by_cases hmissing : missingAgents started s = []
  · have hall := missingAgents_eq_nil_iff.mp hmissing
    have hkept := filter_usable_eq_self hall
    have hrun : restrictToStarted started s = .ok (some (s.sdks, s.edges)) := by
      rw [restrictToStarted, selectOne_whole hall]
      rfl
    rw [hrun]
    cases htopology : s.topology with
    | none => exact (restrictToAvailable_whole s.edges hall hlen).symm
    | some topology =>
        rw [restrictToAvailable_rebuilt s.edges (hkept.symm ▸ hlen), hkept,
          hown topology htopology]
        rfl
  · exact restrictToStarted_of_missing hmissing

end Runner

section Confluence

variable {s : ResolvedScenario} {usable started : List String}

/-- What survives both stages. -/
def both (usable started : List String) : List String := usable.filter (· ∈ started)

theorem filter_both (sdks : List String) :
    sdks.filter (· ∈ both usable started) =
      (sdks.filter (· ∈ usable)).filter (· ∈ started) := by
  rw [List.filter_filter]
  apply List.filter_congr
  intro a _
  simp [both, Bool.and_comm]

/-- What the first stage leaves is what the runner restricts. -/
theorem restrictTwice_of_restricted {sdks : List String} {edges : Option (List String)}
    (h : restrictToAvailable s.sdks s.topology s.edges usable minAgents =
      .ok (some (sdks, edges))) :
    restrictTwice s usable started = restrictToStarted started { s with sdks, edges } := by
  rw [restrictTwice, h]
  rfl

/-- A scenario of a named shape is drawn again at each stage, and each time from
the number of agents alone. -/
theorem restrictTwice_named {topology : Topology} (htopology : s.topology = some topology)
    (hlen : minAgents ≤ (s.sdks.filter (· ∈ usable)).length) :
    restrictTwice s usable started =
      restrictToAvailable s.sdks s.topology s.edges (both usable started) := by
  obtain ⟨edges, hedges⟩ := exists_topologyToEdges topology hlen
  have hfirst : restrictToAvailable s.sdks s.topology s.edges usable minAgents =
      .ok (some (s.sdks.filter (· ∈ usable), edges)) := by
    rw [htopology, restrictToAvailable_rebuilt s.edges hlen, hedges]
    rfl
  have hown : CarriesOwnEdges { s with sdks := s.sdks.filter (· ∈ usable), edges } := by
    intro t ht
    obtain rfl : topology = t := Option.some.inj (htopology.symm.trans ht)
    exact hedges
  rw [restrictTwice_of_restricted hfirst, restrictToStarted_eq hown hlen]
  simp only [htopology, restrictToAvailable, filter_both, Option.isNone_some, Bool.and_false,
    Bool.false_eq_true, if_false]

/-- Without a shape nothing is drawn: edges an author wrote are given up at the
stage that loses the first agent, and kept where neither does. -/
theorem restrictTwice_unnamed (htopology : s.topology = none)
    (hlen : minAgents ≤ (s.sdks.filter (· ∈ usable)).length) :
    restrictTwice s usable started =
      restrictToAvailable s.sdks s.topology s.edges (both usable started) := by
  have hown (sdks : List String) (edges : Option (List String)) :
      CarriesOwnEdges { s with sdks, edges } := by
    intro t ht
    cases htopology.symm.trans ht
  cases hedges : s.edges with
  | none =>
      have hfirst : restrictToAvailable s.sdks s.topology s.edges usable minAgents =
          .ok (some (s.sdks.filter (· ∈ usable), none)) := by
        rw [htopology, hedges, restrictToAvailable_complete hlen]
      rw [restrictTwice_of_restricted hfirst, restrictToStarted_eq (hown _ _) hlen]
      simp only [htopology, restrictToAvailable, filter_both, Option.isSome_none, Bool.and_false,
        Bool.false_and, Bool.false_eq_true, if_false]
  | some es =>
      by_cases hall : ∀ a ∈ s.sdks, a ∈ usable
      · have hkept := filter_usable_eq_self hall
        have hfirst : restrictToAvailable s.sdks s.topology s.edges usable minAgents =
            .ok (some (s.sdks, some es)) := by
          rw [htopology, hedges, restrictToAvailable_whole _ hall (hkept ▸ hlen)]
        rw [restrictTwice_of_restricted hfirst, restrictToStarted_eq (hown _ _) (hkept ▸ hlen)]
        simp only [htopology, restrictToAvailable, filter_both, hkept]
      · have hout : ∃ a ∈ s.sdks, a ∉ usable := by
          push Not at hall
          exact hall
        have houtBoth : ∃ a ∈ s.sdks, a ∉ both usable started := by
          obtain ⟨a, ha, hnot⟩ := hout
          exact ⟨a, ha, fun hboth => hnot (List.mem_filter.mp hboth).1⟩
        rw [htopology, restrictToAvailable_missing es houtBoth, restrictTwice, htopology, hedges,
          restrictToAvailable_missing es hout]
        rfl

/-- Restricting in two stages is restricting once to what survives both. -/
theorem restrictTwice_eq (s : ResolvedScenario) (usable started : List String) :
    restrictTwice s usable started =
      restrictToAvailable s.sdks s.topology s.edges (both usable started) := by
  by_cases hfew : (s.sdks.filter (· ∈ usable)).length < minAgents
  · have hfewer : ((s.sdks.filter (· ∈ usable)).filter (· ∈ started)).length ≤
        (s.sdks.filter (· ∈ usable)).length := List.length_filter_le _ _
    rw [restrictTwice, restrictToAvailable_few s.topology s.edges hfew]
    refine (restrictToAvailable_few s.topology s.edges ?_).symm
    rw [filter_both]
    exact lt_of_le_of_lt hfewer hfew
  · have hlen := Nat.not_lt.mp hfew
    cases htopology : s.topology with
    | some topology => rw [restrictTwice_named htopology hlen, htopology]
    | none => rw [restrictTwice_unnamed htopology hlen, htopology]

end Confluence

section Resolver

variable {d : TraversalScenarioV1} {known : KnownFailures} {sutSdk : Option String} {v : Variant}
  {group : Group} {report : ResolutionReport}

/-- What the resolver's restriction leaves of a group is what it emits, and
nothing is emitted where nothing is left. -/
theorem restrictToAvailable_of_expandGroup
    (h : expandGroup d sutSdk known v group = .ok report) :
    restrictToAvailable group.sdks (resolvedTopology d) d.edges
        (applyExclusions group.sdks known group.used v.behavior v.streaming sutSdk).1 minAgents =
      .ok (report.scenarios.head?.map fun s => (s.sdks, s.edges)) ∧
    ∀ s ∈ report.scenarios, report.scenarios = [s] ∧ s.topology = resolvedTopology d := by
  obtain ⟨-, ⟨hrestricted, -, why, rfl⟩ | ⟨sdks, edges, hrestricted, rfl⟩⟩ :=
    expandGroup_cases h
  · exact ⟨hrestricted, by simp⟩
  · rw [hrestricted]
    simp [emitted]

/-- A group the resolver expands and the runner restricts again was restricted
once, to the agents that neither lost. -/
theorem expandGroup_restricts_twice (started : List String)
    (h : expandGroup d sutSdk known v group = .ok report) :
    restrictToAvailable group.sdks (resolvedTopology d) d.edges
        (both (applyExclusions group.sdks known group.used v.behavior v.streaming sutSdk).1
          started) =
      match report.scenarios.head? with
      | none => .ok none
      | some s => restrictToStarted started s := by
  obtain ⟨hrestricted, honly⟩ := restrictToAvailable_of_expandGroup h
  have htwice := restrictTwice_eq
    { name := d.name, sdks := group.sdks, behavior := v.behavior.value, edges := d.edges,
      protocols := none, streaming := v.streaming, buildSubtests := d.buildSubtests,
      tier := d.tier.value, topology := resolvedTopology d }
    (applyExclusions group.sdks known group.used v.behavior v.streaming sutSdk).1 started
  rw [← htwice, restrictTwice, hrestricted]
  cases hscenarios : report.scenarios with
  | nil => rfl
  | cons s rest =>
      have htopology := (honly s (by simp [hscenarios])).2
      exact restrictToStarted_congr rfl htopology.symm rfl

end Resolver

section Batch

variable {scenarios : List ResolvedScenario} {agents : AgentTable} {started : List String}
  {s : ResolvedScenario} {part : Selection}

/-- What one turn of the loop adds, told by what is left of the scenario. -/
theorem selectOne_parts (h : selectOne started s = .ok part) :
    part.runnable = (part.leaves.map fun kept => ⟨s, kept.1, kept.2⟩).toList ∧
    part.skipped = if part.leaves.isNone then [(s.name, missingAgents started s)] else [] := by
  obtain ⟨-, rfl⟩ | ⟨-, -, rfl⟩ | ⟨-, kept, keptEdges, -, rfl⟩ := selectOne_cases h
  · exact ⟨rfl, rfl⟩
  · exact ⟨rfl, rfl⟩
  · exact ⟨rfl, rfl⟩

/-- What is left of each scenario of a batch. -/
theorem exists_restrictToStarted (started : List String) :
    ∃ left : ResolvedScenario → Option (List String × Option (List String)),
      ∀ s, restrictToStarted started s = .ok (left s) := by
  have hone (s : ResolvedScenario) : ∃ left, restrictToStarted started s = .ok left := by
    obtain ⟨part, hpart⟩ := exists_selectOne started s
    exact ⟨part.leaves, by rw [restrictToStarted, hpart]; rfl⟩
  exact Classical.axiomOfChoice hone

/-- The batch splits into what runs and what is skipped, each in its order. -/
theorem join_parts {left : ResolvedScenario → Option (List String × Option (List String))}
    (hleft : ∀ s, restrictToStarted started s = .ok (left s)) {parts : List Selection}
    (hparts : List.Forall₂ (fun s part => selectOne started s = .ok part) scenarios parts) :
    (Selection.join parts).runnable =
      scenarios.filterMap (fun s => (left s).map fun kept => ⟨s, kept.1, kept.2⟩) ∧
    (Selection.join parts).skipped =
      (scenarios.filter fun s => (left s).isNone).map fun s =>
        (s.name, missingAgents started s) := by
  induction hparts with
  | nil => exact ⟨rfl, rfl⟩
  | @cons s part rest parts hs _ ih =>
      have hleaves : part.leaves = left s := by
        have hs' := hleft s
        rw [restrictToStarted, hs] at hs'
        exact Except.ok.inj hs'
      obtain ⟨hrunnable, hskipped⟩ := selectOne_parts hs
      rw [hleaves] at hrunnable hskipped
      constructor
      · change part.runnable ++ (Selection.join parts).runnable = _
        rw [hrunnable, ih.1]
        cases hkept : left s <;> simp [hkept]
      · change part.skipped ++ (Selection.join parts).skipped = _
        rw [hskipped, ih.2]
        cases hkept : left s <;> simp [hkept]

theorem runnable_scenarios (left : ResolvedScenario → Option (List String × Option (List String)))
    (scenarios : List ResolvedScenario) :
    (scenarios.filterMap fun s => (left s).map fun kept =>
        (⟨s, kept.1, kept.2⟩ : Runnable)).map Runnable.scenario =
      scenarios.filter fun s => (left s).isSome := by
  induction scenarios with
  | nil => rfl
  | cons s rest ih => cases hkept : left s <;> simp [hkept, ih]

/-- Restricting to `U₁` in the resolver and to `U₂` in the runner is restricting
once, in either place, to both; and a batch splits, in its order, into what runs,
over agents that came up, and what is skipped. -/
theorem restriction_confluent :
    (∀ (s : ResolvedScenario) (U₁ U₂ : List String), CarriesOwnEdges s →
      minAgents ≤ s.sdks.length →
      restrictTwice s U₁ U₂ =
        restrictToAvailable s.sdks s.topology s.edges (both U₁ U₂) minAgents ∧
      restrictTwice s U₁ U₂ = restrictToStarted (both U₁ U₂) s) ∧
    ∀ (scenarios : List ResolvedScenario) (agents : AgentTable),
      ∃ (selection : Selection)
        (left : ResolvedScenario → Option (List String × Option (List String))),
        selectRunnable scenarios agents = .ok selection ∧
        (∀ s, restrictToStarted (startedIds agents) s = .ok (left s)) ∧
        selection.runnable =
          scenarios.filterMap (fun s => (left s).map fun kept => ⟨s, kept.1, kept.2⟩) ∧
        selection.runnable.map Runnable.scenario =
          scenarios.filter (fun s => (left s).isSome) ∧
        selection.skipped = (scenarios.filter fun s => (left s).isNone).map (fun s =>
          (s.name, missingAgents (startedIds agents) s)) ∧
        ∀ r ∈ selection.runnable, ∀ a ∈ r.sdks, a ∈ startedIds agents := by
  constructor
  · intro s U₁ U₂ hown hlen
    refine ⟨restrictTwice_eq s U₁ U₂, ?_⟩
    rw [restrictToStarted_eq hown hlen]
    exact restrictTwice_eq s U₁ U₂
  · intro scenarios agents
    obtain ⟨selection, hselection⟩ := exists_selectRunnable scenarios agents
    obtain ⟨left, hleft⟩ := exists_restrictToStarted (startedIds agents)
    obtain ⟨parts, hparts, hjoin⟩ := selectRunnable_eq_ok_iff.mp hselection
    obtain ⟨hrunnable, hskipped⟩ := join_parts hleft hparts
    rw [← hjoin] at hrunnable hskipped
    refine ⟨selection, left, hselection, hleft, hrunnable, ?_, hskipped, ?_⟩
    · rw [hrunnable]
      exact runnable_scenarios left scenarios
    · intro r hr
      obtain ⟨-, part, hpart, hmem⟩ := (mem_selectRunnable_iff hselection).mp hr
      exact selectOne_started hpart hmem

/-- A star that loses its hub in the resolver and a spoke in the runner. -/
theorem star_restricted_twice :
    let s : ResolvedScenario :=
      { name := "star", sdks := ["a", "b", "c", "d"], behavior := "none"
        edges := some ["0->1", "0->2", "0->3", "1->0", "2->0", "3->0"], topology := some .star }
    restrictTwice s ["b", "c", "d"] ["a", "b", "d"] = .ok (some (["b", "d"],
      some ["0->1", "1->0"])) :=
  ((restriction_confluent.1 _ ["b", "c", "d"] ["a", "b", "d"]
    (by rintro _ ⟨⟩; decide) (by decide)).1).trans (by decide)

end Batch

end A2aItk.Execution
