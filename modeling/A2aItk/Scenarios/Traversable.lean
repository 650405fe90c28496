import A2aItk.Scenarios.Topology
import A2aItk.Traversal.AgentSemantics

/-!
# Named topologies traverse

Every shape is balanced and hangs together with its first agent, over any
number of agents. What is left of a named topology is that shape again over the
agents that stayed, so its traversal is a single circuit through all of them.

## Implementation notes

A shape is read as pairs of indices, its wires; the agents only label them.
-/

namespace A2aItk.Scenarios

open Python Multigraph Traversal

/-- The index pairs of a shape over `n` agents, where it spells its edges out. -/
def wires (n : Nat) : Topology → Option (List (Nat × Nat))
  | .star => some ((List.range' 1 (n - 1)).map (fun i => (0, i)) ++
      (List.range' 1 (n - 1)).map fun i => (i, 0))
  | .chain => some ((List.range n).map fun i => (i, (i + 1) % n))
  | .euler => none

theorem topologyToEdges_eq_wires {n : Nat} (h : minNodes ≤ n) (topology : Topology) :
    topologyToEdges topology n =
      .ok ((wires n topology).map fun ws => ws.map fun w => printEdge w.1 w.2) := by
  unfold topologyToEdges
  rw [if_neg (Nat.not_lt.mpr h)]
  cases topology with
  | star => simp [wires, Function.comp_def]
  | chain => simp [wires, Function.comp_def]
  | euler => rfl

section Wires

variable {n : Nat} {topology : Topology} {ws : List (Nat × Nat)}

theorem wires_lt (hn : minNodes ≤ n) (h : wires n topology = some ws) :
    ∀ w ∈ ws, w.1 < n ∧ w.2 < n := by
  have hpos : 2 ≤ n := hn
  intro w hw
  cases topology with
  | star =>
      obtain rfl := Option.some.inj h
      simp only [List.mem_append, List.mem_map, List.mem_range'_1] at hw
      obtain ⟨i, hi, rfl⟩ | ⟨i, hi, rfl⟩ := hw
      · exact ⟨by omega, by omega⟩
      · exact ⟨by omega, by omega⟩
  | chain =>
      obtain rfl := Option.some.inj h
      obtain ⟨i, hi, rfl⟩ := List.mem_map.mp hw
      exact ⟨List.mem_range.mp hi, Nat.mod_lt _ (by omega)⟩
  | euler => cases h

/-- A cyclic shift of the indices. -/
theorem map_succ_mod_range (n : Nat) :
    (List.range n).map (fun i => (i + 1) % n) = (List.range n).rotate 1 := by
  apply List.ext_getElem
  · simp
  · intro i h₁ h₂
    simp [List.getElem_rotate]

theorem balanced_wires (h : wires n topology = some ws) :
    DegreeBalanced (ws : Multiset (Nat × Nat)) := by
  rw [DegreeBalanced, Multiset.map_coe, Multiset.map_coe, Multiset.coe_eq_coe]
  cases topology with
  | star =>
      obtain rfl := Option.some.inj h
      simp only [List.map_append, List.map_map, Function.comp_def]
      exact List.perm_append_comm
  | chain =>
      obtain rfl := Option.some.inj h
      simp only [List.map_map, Function.comp_def]
      rw [map_succ_mod_range, List.map_id'']
      · exact (List.rotate_perm _ _).symm
      · exact fun _ => rfl
  | euler => cases h

/-- Every index hangs together with the first one. -/
theorem linked_wires (h : wires n topology = some ws) {i : Nat} (hi : i < n) :
    Linked (ws : Multiset (Nat × Nat)) 0 i := by
  cases topology with
  | star =>
      obtain rfl := Option.some.inj h
      cases i with
      | zero => exact Linked.refl _ 0
      | succ i =>
          apply Linked.edge
          rw [Multiset.mem_coe, List.mem_append]
          left
          exact List.mem_map.mpr ⟨i + 1, List.mem_range'_1.mpr ⟨by omega, by omega⟩, rfl⟩
  | chain =>
      obtain rfl := Option.some.inj h
      induction i with
      | zero => exact Linked.refl _ 0
      | succ i ih =>
          apply (ih (by omega)).trans
          apply Linked.edge
          rw [Multiset.mem_coe]
          refine List.mem_map.mpr ⟨i, List.mem_range.mpr (by omega), ?_⟩
          rw [Nat.mod_eq_of_lt hi]
  | euler => cases h

end Wires

section Agents

variable {kept : List String} {ws : List (Nat × Nat)}

/-- The agents a wire connects. -/
def wired (kept : List String) (w : Nat × Nat) : String × String :=
  (kept.getD w.1 "", kept.getD w.2 "")

theorem parse_wires (h : ∀ w ∈ ws, w.1 < kept.length ∧ w.2 < kept.length) :
    parseEdgeStrings (ws.map fun w => printEdge w.1 w.2) kept = .ok (ws.map (wired kept)) := by
  rw [parseEdgeStrings_eq_ok_iff, List.forall₂_map_left_iff, List.forall₂_map_right_iff,
    List.forall₂_same]
  intro w hw
  exact ⟨w.1, w.2, readIndices_printEdge _ _, (h w hw).1, (h w hw).2, rfl⟩

theorem coe_wired (kept : List String) (ws : List (Nat × Nat)) :
    ((ws.map (wired kept) : List (String × String)) : Multiset (String × String)) =
      (ws : Multiset (Nat × Nat)).map (Prod.map (kept.getD · "") (kept.getD · "")) :=
  (Multiset.map_coe _ _).symm

/-- What a shape over at least two agents is to the traversal. -/
theorem shape_traverses {root : String} {rest : List String} {edges : Option (List String)}
    {topology : Topology} (hlen : minNodes ≤ (root :: rest).length)
    (h : topologyToEdges topology (root :: rest).length = .ok edges) :
    ∃ parsed, parseGivenEdges (root :: rest) edges = .ok parsed ∧
      DegreeBalanced (targetEdges (root :: rest) parsed : Multiset (String × String)) ∧
      ∀ u ∈ root :: rest,
        Linked (targetEdges (root :: rest) parsed : Multiset (String × String)) root u := by
  rw [topologyToEdges_eq_wires hlen] at h
  obtain rfl := Except.ok.inj h
  cases hws : wires (root :: rest).length topology with
  | none =>
      refine ⟨none, rfl, balanced_targetEdges_none _, fun u hu => ?_⟩
      by_cases hroot : u = root
      · exact hroot ▸ Linked.refl _ u
      · apply Linked.edge
        rw [Multiset.mem_coe]
        exact mem_targetEdges_none.mpr ⟨by simp, hu, Ne.symm hroot⟩
  | some ws =>
      have hlt := wires_lt hlen hws
      have hparse := parse_wires hlt
      have hne : (ws.map fun w => printEdge w.1 w.2) ≠ [] := by
        have hlinked := linked_wires hws (i := 1) (Nat.lt_of_lt_of_le (by decide) hlen)
        rintro hnil
        obtain rfl : ws = [] := List.map_eq_nil_iff.mp hnil
        have hiff := hlinked.iff_of_edges (P := (· = 0)) (by simp)
        simp at hiff
      refine ⟨_, parseGivenEdges_of_ne_nil hne hparse, ?_, fun u hu => ?_⟩
      · rw [targetEdges_of_parsed hne hparse, coe_wired]
        exact (balanced_wires hws).map _
      · rw [targetEdges_of_parsed hne hparse, coe_wired]
        obtain ⟨i, hi, rfl⟩ := List.getElem_of_mem hu
        have hget : (root :: rest).getD i "" = (root :: rest)[i] := by
          rw [List.getD_eq_getElem?_getD, List.getElem?_eq_getElem hi]
          rfl
        have hmap := (linked_wires hws hi).map ((root :: rest).getD · "")
        rw [hget] at hmap
        exact hmap

/-- What is left of a named topology is that shape over the agents that stayed. -/
theorem restrictToAvailable_named {sdks usable : List String} {topology : Topology}
    {edges keptEdges : Option (List String)} {least : Nat}
    (h : restrictToAvailable sdks (some topology) edges usable least =
      .ok (some (kept, keptEdges))) :
    least ≤ kept.length ∧ topologyToEdges topology kept.length = .ok keptEdges := by
  obtain rfl := restrictToAvailable_kept h
  unfold restrictToAvailable at h
  dsimp only at h
  split at h
  · cases h
  · rename_i hlen
    simp only [Option.isNone_some, Bool.and_false, Bool.false_eq_true, if_false] at h
    obtain ⟨rebuilt, hrebuilt, h⟩ := bind_eq_ok_iff.mp h
    cases h
    exact ⟨Nat.not_lt.mp hlen, hrebuilt⟩

/-- A restricted topology always traverses: the suite is built, with one circuit
for each transport, from the first agent that stayed through all of them. -/
theorem restricted_topology_traverses {sdks usable : List String} {topology : Topology}
    {edges keptEdges : Option (List String)} {agents : AgentTable}
    (h : restrictToAvailable sdks (some topology) edges usable = .ok (some (kept, keptEdges)))
    (haddr : Addressed agents kept) (protocols : Option (List String)) (options : HopOptions) :
    ∃ root parsed circuit parts, kept.head? = some root ∧
      parseGivenEdges kept keptEdges = .ok parsed ∧
      eulerTraversalWithHierholzer root kept parsed = .ok [circuit] ∧
      createTestSuite kept agents keptEdges protocols options =
        .ok (.steps (parts.map Prod.fst) .concat, parts.flatMap Prod.snd) ∧
      List.Forall₂ (fun t part => PartOf agents options t circuit part)
        (protocols.getD allTransports) parts ∧
      circuit.head? = some root ∧ circuit.getLast? = some root ∧ ∀ a ∈ kept, a ∈ circuit := by
  obtain ⟨hlen, hedges⟩ := restrictToAvailable_named h
  obtain ⟨root, rest, rfl⟩ : ∃ root rest, kept = root :: rest := by
    cases kept with
    | nil => simp [minNodes] at hlen
    | cons root rest => exact ⟨root, rest, rfl⟩
  obtain ⟨parsed, hparsed, hbalanced, hlinked⟩ := shape_traverses hlen hedges
  obtain ⟨-, circuits, heuler, hspec⟩ | ⟨hnot, -⟩ :=
    eulerTraversal_cases root (root :: rest) parsed
  · obtain ⟨circuit, rfl, hhead, hlast, hall⟩ :=
      hspec.single (fun c hc u hu => mem_of_mem_circuit hspec hc hu) hlinked
    obtain ⟨-, -, -, suite, hsuite⟩ | ⟨hnot, -⟩ :=
      createTestSuite_cases options haddr keptEdges protocols
    · obtain ⟨circuits, parts, hcircuits, hparts, rfl⟩ :=
        createTestSuite_circuits hparsed hsuite
      refine ⟨root, parsed, circuit, parts, rfl, hparsed, heuler, hsuite, ?_, hhead, hlast,
        fun a ha => hall a (hlinked a ha)⟩
      cases hts : protocols.getD allTransports with
      | nil =>
          rw [hts] at hparts
          cases hparts
          exact .nil
      | cons t ts =>
          obtain rfl : [circuit] = circuits := by
            have hne : protocols.getD allTransports ≠ [] := by simp [hts]
            exact Except.ok.inj (heuler.symm.trans (hcircuits hne))
          have hwalks : walks (t :: ts) [circuit] = (t :: ts).map fun t => (t, circuit) := by
            simp [walks, ← List.map_eq_flatMap]
          rw [hts, hwalks] at hparts
          exact List.forall₂_map_left_iff.mp hparts
    · exact absurd hbalanced (hnot parsed hparsed).2
  · exact absurd hbalanced hnot

/-- A star whose hub is gone. -/
theorem star_without_hub_traverses :
    ∃ root parsed circuit parts, ["b", "c"].head? = some root ∧
      parseGivenEdges ["b", "c"] (some ["0->1", "1->0"]) = .ok parsed ∧
      eulerTraversalWithHierholzer root ["b", "c"] parsed = .ok [circuit] ∧
      createTestSuite ["b", "c"] threeAgents (some ["0->1", "1->0"]) (some ["grpc"]) {} =
        .ok (.steps (parts.map Prod.fst) .concat, parts.flatMap Prod.snd) ∧
      List.Forall₂ (fun t part => PartOf threeAgents {} t circuit part)
        ((some ["grpc"]).getD allTransports) parts ∧
      circuit.head? = some root ∧ circuit.getLast? = some root ∧
      ∀ a ∈ ["b", "c"], a ∈ circuit :=
  have hrestricted : restrictToAvailable ["a", "b", "c"] (some .star)
      (some ["0->1", "0->2", "1->0", "2->0"]) ["b", "c"] =
      .ok (some (["b", "c"], some ["0->1", "1->0"])) := by decide
  restricted_topology_traverses hrestricted
    (fun s hs => threeAgents_reached.addressed s (List.mem_cons_of_mem _ hs)) (some ["grpc"]) {}

end Agents

end A2aItk.Scenarios
