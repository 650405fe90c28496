import A2aItk.Traversal.TestSuite

/-!
# Named topologies

`scenarios/topology.py`: the shapes a scenario can name, the edge strings they
stand for, and what is left of a scenario when agents are missing.
-/

namespace A2aItk.Scenarios

open Python
open Traversal (printEdge)

/-- How agents are wired to each other within one scenario. -/
inductive Topology
  | star
  | chain
  | euler
  deriving DecidableEq

def Topology.value : Topology → String
  | star => "star"
  | chain => "chain"
  | euler => "euler"

/-- Two agents is the smallest traversable graph. -/
def minNodes : Nat := 2

/-- The edge strings of a topology; `none` leaves the complete digraph to the
traversal. -/
def topologyToEdges (topology : Topology) (nodeCount : Nat) :
    Except PyError (Option (List String)) :=
  if nodeCount < minNodes then
    throw (.valueError
      s!"{topology.value} topology needs at least {minNodes} agents, got {nodeCount}")
  else match topology with
    | .star => pure (some (
        (List.range' 1 (nodeCount - 1)).map (printEdge 0 ·) ++
        (List.range' 1 (nodeCount - 1)).map (printEdge · 0)))
    | .chain => pure (some (
        (List.range nodeCount).map fun i => printEdge i ((i + 1) % nodeCount)))
    | .euler => pure none

/-- What a scenario can still run over the usable agents; `none` where it cannot
survive the loss. -/
def restrictToAvailable (sdks : List String) (topology : Option Topology)
    (edges : Option (List String)) (usable : List String) (minAgents : Nat := minNodes) :
    Except PyError (Option (List String × Option (List String))) :=
  let kept := sdks.filter (· ∈ usable)
  if kept.length < minAgents then pure none
  else if kept.length < sdks.length && edges.isSome && topology.isNone then pure none
  else match topology with
    | some shape => do
        let rebuilt ← topologyToEdges shape kept.length
        pure (some (kept, rebuilt))
    | none => pure (some (kept, edges))

section Restriction

variable {sdks usable : List String} {edges : Option (List String)}

theorem filter_usable_eq_self (h : ∀ s ∈ sdks, s ∈ usable) :
    sdks.filter (· ∈ usable) = sdks := by
  rw [List.filter_eq_self]
  intro s hs
  simpa using h s hs

theorem length_filter_usable_lt (h : ∃ s ∈ sdks, s ∉ usable) :
    (sdks.filter (· ∈ usable)).length < sdks.length := by
  obtain ⟨s, hs, hout⟩ := h
  apply lt_of_le_of_ne (List.length_filter_le _ _)
  intro heq
  exact hout (by simpa using List.length_filter_eq_length_iff.mp heq s hs)

/-- Edges an author wrote run unchanged where no agent is missing. -/
theorem restrictToAvailable_whole {least : Nat} (edges : Option (List String))
    (h : ∀ s ∈ sdks, s ∈ usable) (hlen : least ≤ sdks.length) :
    restrictToAvailable sdks none edges usable least = .ok (some (sdks, edges)) := by
  simp [restrictToAvailable, filter_usable_eq_self h, Nat.not_lt.mpr hlen]

/-- Edges an author wrote do not run where an agent is missing. -/
theorem restrictToAvailable_missing {least : Nat} (es : List String)
    (h : ∃ s ∈ sdks, s ∉ usable) :
    restrictToAvailable sdks none (some es) usable least = .ok none := by
  simp [restrictToAvailable, length_filter_usable_lt h]

/-- What is left to run is the usable agents, in their order. -/
theorem restrictToAvailable_kept {topology : Option Topology} {least : Nat} {kept : List String}
    {keptEdges : Option (List String)}
    (h : restrictToAvailable sdks topology edges usable least = .ok (some (kept, keptEdges))) :
    kept = sdks.filter (· ∈ usable) := by
  unfold restrictToAvailable at h
  dsimp only at h
  split at h
  · cases h
  · split at h
    · cases h
    · cases topology with
      | none =>
          cases h
          rfl
      | some shape =>
          obtain ⟨rebuilt, -, h⟩ := bind_eq_ok_iff.mp h
          cases h
          rfl

/-- A topology is only rebuilt over enough agents. -/
theorem exists_restrictToAvailable (sdks : List String) (topology : Option Topology)
    (edges : Option (List String)) (usable : List String) :
    ∃ restricted, restrictToAvailable sdks topology edges usable = .ok restricted := by
  unfold restrictToAvailable
  dsimp only
  by_cases hfew : (sdks.filter (· ∈ usable)).length < minNodes
  · exact ⟨none, if_pos hfew⟩
  · rw [if_neg hfew]
    split
    · exact ⟨none, rfl⟩
    · cases topology with
      | none => exact ⟨_, rfl⟩
      | some shape =>
          simp only [topologyToEdges, if_neg hfew]
          cases shape <;> exact ⟨_, rfl⟩

end Restriction

end A2aItk.Scenarios
