import A2aItk.Traversal.EulerCircuits

/-!
# Hierholzer's algorithm on a multigraph

The traversal rejects a graph exactly where some node is entered more or less often than
it is left. Otherwise its circuits are closed walks that share no node and use up the
edges, and the one through the current agent comes first.
-/

namespace A2aItk.Traversal

open Python Multigraph

section First

variable {start : String} {allSdks : List String} {edges : Option (List (String × String))}
  {circuits : List (List String)}

/-- The component that has the current agent is walked first. -/
theorem head_prioritize {comps : List (List String)} {comp : List String}
    (hcomp : comp ∈ comps) (hstart : start ∈ comp) :
    ∃ first rest, prioritize start comps = first :: rest ∧ start ∈ first := by
  have hmem : comp ∈ comps.filter (start ∈ ·) :=
    List.mem_filter.mpr ⟨hcomp, decide_eq_true hstart⟩
  obtain ⟨first, rest, hfilter⟩ := List.exists_cons_of_ne_nil (List.ne_nil_of_mem hmem)
  refine ⟨first, rest ++ comps.filter (start ∉ ·), by rw [prioritize, hfilter]; rfl, ?_⟩
  have hfirst : first ∈ comps.filter (start ∈ ·) := by simp [hfilter]
  exact of_decide_eq_true (List.mem_filter.mp hfirst).2

/-- The circuits of a traversal are those of the components, in that order. -/
theorem eulerTraversal_components
    (h : eulerTraversalWithHierholzer start allSdks edges = .ok circuits)
    (hne : targetEdges allSdks edges ≠ []) :
    ∃ comps, Decomposed (targetEdges allSdks edges : Multiset (String × String)) comps ∧
      List.Forall₂ (CircuitOf start) (prioritize start comps) circuits := by
  have hover := targetEdges_over allSdks edges
  have hcomps := decomposed_decomposeIntoComponents hover
  unfold eulerTraversalWithHierholzer at h
  obtain ⟨⟨⟩, hcheck, h⟩ := bind_eq_ok_iff.mp h
  have hbalanced := (verify_iff_balanced hover).mp hcheck
  dsimp only at h
  split at h
  · rename_i hempty
    obtain ⟨e, he⟩ := List.exists_mem_of_ne_nil _ hne
    obtain ⟨comp, hcomp, -⟩ := hcomps.cover e he
    rw [List.isEmpty_iff.mp hempty] at hcomp
    simp at hcomp
  · obtain rfl := Except.ok.inj h
    have hordered := hcomps.prioritize start
    refine ⟨_, hcomps, (circuitsOf_spec start _ _ _ (fun _ => False) (holds_adjacency _)
      hbalanced (by simp) (by simp) hordered.led hordered.apart (by simp) ?_).1⟩
    simp

/-- The first circuit leaves from the current agent where an edge does. -/
theorem head_of_edge (h : eulerTraversalWithHierholzer start allSdks edges = .ok circuits)
    {v : String} (hedge : (start, v) ∈ targetEdges allSdks edges) :
    ∃ first rest, circuits = first :: rest ∧ first.head? = some start := by
  obtain ⟨comps, hcomps, hcircuits⟩ :=
    eulerTraversal_components h (List.ne_nil_of_mem hedge)
  obtain ⟨comp, hcomp, hstart⟩ := hcomps.cover (start, v) hedge
  obtain ⟨firstComp, others, hordered, hfirst⟩ := head_prioritize hcomp hstart
  rw [hordered] at hcircuits
  cases hcircuits with
  | cons hcircuit hrest =>
      exact ⟨_, _, rfl, hcircuit.starts ((hcircuit.nodes start).mpr hfirst)⟩

end First

/-- Closed walks without a common node that use each edge once, the one through the
current agent leaving from there and before the others. -/
structure ClosedTours (edges : List (String × String)) (currentSdk : String)
    (circuits : List (List String)) : Prop where
  closed : ∀ c ∈ circuits, ∃ s, c.head? = some s ∧ c.getLast? = some s
  uses : (circuits.flatMap hops).Perm edges
  apart : circuits.Pairwise fun c d => ∀ u ∈ c, u ∉ d
  first : ∀ v, (currentSdk, v) ∈ edges → ∃ first rest, circuits = first :: rest ∧
    first.head? = some currentSdk ∧ first.getLast? = some currentSdk

section Correctness

variable {currentSdk : String} {allSdks : List String} {edges : List (String × String)}

/-- Edges between the agents are all kept. -/
theorem targetEdges_of_over (hne : edges ≠ [])
    (hedges : ∀ e ∈ edges, e.1 ∈ allSdks ∧ e.2 ∈ allSdks) :
    targetEdges allSdks (some edges) = edges := by
  obtain ⟨e, es, rfl⟩ := List.exists_cons_of_ne_nil hne
  apply List.filter_eq_self.mpr
  intro p hp
  simpa using hedges p hp

theorem closedTours_of_ok {circuits : List (List String)} (hne : edges ≠ [])
    (hedges : ∀ e ∈ edges, e.1 ∈ allSdks ∧ e.2 ∈ allSdks)
    (h : eulerTraversalWithHierholzer currentSdk allSdks (some edges) = .ok circuits) :
    ClosedTours edges currentSdk circuits := by
  have htarget := targetEdges_of_over hne hedges
  have hspec := eulerTraversal_spec h
  rw [htarget] at hspec
  refine ⟨hspec.closed, Multiset.coe_eq_coe.mp hspec.covers, hspec.apart, fun v hv => ?_⟩
  obtain ⟨first, rest, rfl, hhead⟩ := head_of_edge h (htarget.symm ▸ hv)
  obtain ⟨s, hs, hlast⟩ := hspec.closed first (by simp)
  have hstart : s = currentSdk := Option.some.inj (hs.symm.trans hhead)
  exact ⟨first, rest, rfl, hhead, hstart ▸ hlast⟩

/-- The traversal rejects exactly the graphs with a node that is entered more or less
often than it is left, and tours the others. -/
theorem hierholzer_correct (hne : edges ≠ [])
    (hedges : ∀ e ∈ edges, e.1 ∈ allSdks ∧ e.2 ∈ allSdks) :
    ((∃ e, eulerTraversalWithHierholzer currentSdk allSdks (some edges) = .error e ∧
        e.isValueError = true) ↔
      ∃ node ∈ allSdks,
        (edges.map Prod.snd).count node ≠ (edges.map Prod.fst).count node) ∧
    ((∀ node ∈ allSdks, (edges.map Prod.snd).count node = (edges.map Prod.fst).count node) →
      ∃ circuits, eulerTraversalWithHierholzer currentSdk allSdks (some edges) = .ok circuits ∧
        ClosedTours edges currentSdk circuits) := by
  have hbalanced : DegreeBalanced (edges : Multiset (String × String)) ↔
      ∀ node ∈ allSdks,
        (edges.map Prod.snd).count node = (edges.map Prod.fst).count node := by
    rw [← verify_iff_balanced hedges, verifyEulerianGraph_eq_ok_iff]
    exact forall₂_congr fun node _ => by rw [inDegree_eq, outDegree_eq]
  have hcases := eulerTraversal_cases currentSdk allSdks (some edges)
  rw [targetEdges_of_over hne hedges, hbalanced] at hcases
  obtain ⟨heven, circuits, hok, -⟩ | ⟨hodd, e, herror, hvalue⟩ := hcases
  · refine ⟨⟨?_, ?_⟩, fun _ => ⟨circuits, hok, closedTours_of_ok hne hedges hok⟩⟩
    · rintro ⟨e, herror, -⟩
      exact absurd (hok.symm.trans herror) (by simp)
    · rintro ⟨node, hnode, hodd⟩
      exact absurd (heven node hnode) hodd
  · refine ⟨⟨fun _ => ?_, fun _ => ⟨e, herror, hvalue⟩⟩, fun heven => absurd heven hodd⟩
    simpa using hodd

theorem hierholzer_correct_loop :
    ∃ circuits, eulerTraversalWithHierholzer "a" ["a", "b"]
        (some [("a", "b"), ("a", "a"), ("b", "a")]) = .ok circuits ∧
      ClosedTours [("a", "b"), ("a", "a"), ("b", "a")] "a" circuits :=
  (hierholzer_correct (by simp) (by decide)).2 (by decide)

end Correctness

end A2aItk.Traversal
