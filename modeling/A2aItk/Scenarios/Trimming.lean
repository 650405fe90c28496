import A2aItk.Scenarios.Traversable

/-!
# What trimming does to the hops

A trimmed complete digraph is the complete digraph over the agents that stayed. A
trimmed star keeps the hops between these as long as its hub stays; without it, the
first agent left becomes the hub, and agents talk that never did.
-/

namespace A2aItk.Scenarios

open Python Multigraph Traversal

/-- The hops of a scenario's graph, by agent name. -/
def graphHops (sdks : List String) (edges : Option (List String)) :
    Except PyError (List (String × String)) := do
  let parsed ← parseGivenEdges sdks edges
  pure (targetEdges sdks parsed)

/-- The hops whose two ends are both usable. -/
def usableHops (usable : List String) (hops : List (String × String)) : List (String × String) :=
  hops.filter fun hop => decide (hop.1 ∈ usable) && decide (hop.2 ∈ usable)

/-- The hops of a star. -/
def starHops (hub : String) (peers : List String) : List (String × String) :=
  (peers.map fun peer => (hub, peer)) ++ peers.map fun peer => (peer, hub)

section Star

variable {hub : String} {peers usable : List String}

theorem map_wired_range (hub : String) (peers : List String) :
    (List.range' 1 peers.length).map ((hub :: peers).getD · "") = peers := by
  apply List.ext_getElem
  · simp
  · intro i h₁ h₂
    have hi : i < peers.length := by simpa using h₁
    simp [List.getD_eq_getElem?_getD, Nat.add_comm 1 i, hi]

theorem map_wired_star (hub : String) (peers : List String) :
    ((List.range' 1 peers.length).map (fun i => (0, i)) ++
      (List.range' 1 peers.length).map fun i => (i, 0)).map (wired (hub :: peers)) =
        starHops hub peers := by
  have hpeers (f : String → String × String) :
      (List.range' 1 peers.length).map (fun i => f ((hub :: peers).getD i "")) = peers.map f :=
    List.map_map.symm.trans (congrArg (List.map f) (map_wired_range hub peers))
  rw [List.map_append, List.map_map, List.map_map, starHops]
  exact congrArg₂ (· ++ ·) (hpeers fun peer => (hub, peer)) (hpeers fun peer => (peer, hub))

/-- The edges of a named star are its hops. -/
theorem graphHops_star {edges : Option (List String)}
    (h : topologyToEdges .star (hub :: peers).length = .ok edges) :
    graphHops (hub :: peers) edges = .ok (starHops hub peers) := by
  have hlen : minNodes ≤ (hub :: peers).length := by
    by_contra hfew
    rw [topologyToEdges, if_pos (Nat.not_le.mp hfew)] at h
    cases h
  have hne : peers ≠ [] := by
    rintro rfl
    simp [minNodes] at hlen
  rw [topologyToEdges_eq_wires hlen] at h
  obtain rfl := Except.ok.inj h
  have hwires : wires (hub :: peers).length .star = some _ := rfl
  have hlt := wires_lt hlen hwires
  have hwritten : ((List.range' 1 ((hub :: peers).length - 1)).map (fun i => (0, i)) ++
      (List.range' 1 ((hub :: peers).length - 1)).map fun i => (i, 0)).map
        (fun w : ℕ × ℕ => printEdge w.1 w.2) ≠ [] := by
    simpa using hne
  rw [graphHops, wires, Option.map_some, parseGivenEdges_of_ne_nil hwritten (parse_wires hlt),
    ok_bind, targetEdges_of_parsed hwritten (parse_wires hlt)]
  exact congrArg Except.ok (map_wired_star hub peers)

/-- A star keeps the hops of the usable agents where its hub is one of them. -/
theorem usableHops_star (hhub : hub ∈ usable) :
    usableHops usable (starHops hub peers) = starHops hub (peers.filter (· ∈ usable)) := by
  simp [usableHops, starHops, List.filter_map, Function.comp_def, hhub]

theorem usableHops_star_without_hub (hhub : hub ∉ usable) :
    usableHops usable (starHops hub peers) = [] := by
  simp [usableHops, starHops, List.filter_map, Function.comp_def, hhub]

end Star

section Complete

theorem graphHops_none (sdks : List String) :
    graphHops sdks none = .ok (targetEdges sdks none) := rfl

/-- The complete digraph over the usable agents. -/
theorem usableHops_complete (sdks usable : List String) :
    usableHops usable (targetEdges sdks none) =
      targetEdges (sdks.filter (· ∈ usable)) none := by
  have hfrom (u : String) :
      usableHops usable ((sdks.filter (u ≠ ·)).map fun v => (u, v)) =
        if u ∈ usable then ((sdks.filter (· ∈ usable)).filter (u ≠ ·)).map fun v => (u, v)
        else [] := by
    by_cases hu : u ∈ usable
    · simp [usableHops, List.filter_map, Function.comp_def, hu, Bool.and_comm]
    · simp [usableHops, List.filter_map, Function.comp_def, hu]
  have hall (l : List String) :
      usableHops usable (l.flatMap fun u => (sdks.filter (u ≠ ·)).map fun v => (u, v)) =
        (l.filter (· ∈ usable)).flatMap fun u =>
          ((sdks.filter (· ∈ usable)).filter (u ≠ ·)).map fun v => (u, v) := by
    induction l with
    | nil => rfl
    | cons u rest ih =>
        have hsplit : usableHops usable
            ((u :: rest).flatMap fun u => (sdks.filter (u ≠ ·)).map fun v => (u, v)) =
              usableHops usable ((sdks.filter (u ≠ ·)).map fun v => (u, v)) ++
                usableHops usable
                  (rest.flatMap fun u => (sdks.filter (u ≠ ·)).map fun v => (u, v)) := by
          rw [List.flatMap_cons]
          exact List.filter_append ..
        rw [hsplit, hfrom, ih]
        by_cases hu : u ∈ usable
        · simp [hu]
        · simp [hu]
  exact hall sdks

end Complete

section Restriction

variable {sdks usable kept : List String} {topology : Option Topology}
  {edges keptEdges : Option (List String)} {least : Nat}

/-- The graphs that are trimmed hop by hop: the stars a topology names, and the complete
digraphs, which have no edges. -/
inductive StarOrComplete (sdks : List String) : Option Topology → Option (List String) → Prop
  | star {edges : Option (List String)} (h : topologyToEdges .star sdks.length = .ok edges) :
      StarOrComplete sdks (some .star) edges
  | named : StarOrComplete sdks (some .euler) none
  | unnamed : StarOrComplete sdks none none

/-- A star of enough agents has hops. -/
theorem exists_star_of_topologyToEdges
    (h : topologyToEdges .star sdks.length = .ok edges) :
    ∃ hub peers, sdks = hub :: peers ∧ peers ≠ [] := by
  rw [topologyToEdges] at h
  split at h
  · cases h
  · rename_i hfew
    cases sdks with
    | nil => simp [minNodes] at hfew
    | cons hub peers =>
        refine ⟨hub, peers, rfl, ?_⟩
        rintro rfl
        simp [minNodes] at hfew

/-- A complete digraph is trimmed to a complete digraph. -/
theorem restricted_complete (htopology : topology = none ∨ topology = some .euler)
    (h : restrictToAvailable sdks topology none usable least = .ok (some (kept, keptEdges))) :
    keptEdges = none := by
  obtain rfl | rfl := htopology
  · unfold restrictToAvailable at h
    simp only [Option.isSome_none, Bool.and_false, Bool.false_and] at h
    split at h
    · cases h
    · simpa using (Prod.mk.inj (Option.some.inj (Except.ok.inj h))).2.symm
  · have hedges := (restrictToAvailable_named h).2
    rw [topologyToEdges] at hedges
    split at hedges
    · cases hedges
    · exact (Except.ok.inj hedges).symm

/-- Trimming keeps exactly the hops between usable agents where the hub of a star is
usable, and only there. -/
theorem trimmed_hops_iff (hgraph : StarOrComplete sdks topology edges)
    (h : restrictToAvailable sdks topology edges usable least = .ok (some (kept, keptEdges))) :
    ∃ hops keptHops, graphHops sdks edges = .ok hops ∧ graphHops kept keptEdges = .ok keptHops ∧
      (keptHops = usableHops usable hops ↔
        (topology = some .star → ∀ hub ∈ sdks.head?, hub ∈ usable)) := by
  have hkept := restrictToAvailable_kept h
  have hcomplete (htopology : topology = none ∨ topology = some .euler) (hnone : edges = none) :
      ∃ hops keptHops, graphHops sdks edges = .ok hops ∧
        graphHops kept keptEdges = .ok keptHops ∧
        (keptHops = usableHops usable hops ↔
          (topology = some .star → ∀ hub ∈ sdks.head?, hub ∈ usable)) := by
    rw [hnone] at h ⊢
    rw [restricted_complete htopology h, hkept]
    refine ⟨_, _, graphHops_none sdks, graphHops_none _, ?_⟩
    simp only [usableHops_complete, true_iff]
    rintro rfl
    simp at htopology
  cases hgraph with
  | named => exact hcomplete (.inr rfl) rfl
  | unnamed => exact hcomplete (.inl rfl) rfl
  | star hedges =>
      have hkeptEdges := (restrictToAvailable_named h).2
      obtain ⟨hub, peers, rfl, -⟩ := exists_star_of_topologyToEdges hedges
      obtain ⟨root, rest, hroot, hrest⟩ := exists_star_of_topologyToEdges hkeptEdges
      refine ⟨_, starHops root rest, graphHops_star hedges, ?_, ?_⟩
      · rw [hroot] at hkeptEdges ⊢
        exact graphHops_star hkeptEdges
      · by_cases hhub : hub ∈ usable
        · rw [hroot, List.filter_cons_of_pos (by simpa using hhub), List.cons.injEq] at hkept
          simp [usableHops_star hhub, hkept.1, hkept.2, hhub]
        · rw [usableHops_star_without_hub hhub]
          simp [starHops, hhub, hrest]

/-- A star around the SUT that loses an arm. -/
theorem trimmed_hops_arm :
    ∃ hops keptHops,
      graphHops ["current", "a", "b"] (some ["0->1", "0->2", "1->0", "2->0"]) = .ok hops ∧
      graphHops ["current", "b"] (some ["0->1", "1->0"]) = .ok keptHops ∧
      (keptHops = usableHops ["current", "b"] hops ↔
        (some Topology.star = some .star → ∀ hub ∈ ["current", "a", "b"].head?,
          hub ∈ ["current", "b"])) :=
  have hrestricted : restrictToAvailable ["current", "a", "b"] (some .star)
      (some ["0->1", "0->2", "1->0", "2->0"]) ["current", "b"] =
      .ok (some (["current", "b"], some ["0->1", "1->0"])) := by decide
  trimmed_hops_iff (.star (by decide)) hrestricted

/-- A peer-only star whose first peer is gone: the two others talk to each other. -/
theorem hub_gone_adds_hops :
    StarOrComplete ["python_v10", "go_v10", "go_v03"] (some .star)
        (some ["0->1", "0->2", "1->0", "2->0"]) ∧
      restrictToAvailable ["python_v10", "go_v10", "go_v03"] (some .star)
        (some ["0->1", "0->2", "1->0", "2->0"]) ["go_v10", "go_v03"] =
          .ok (some (["go_v10", "go_v03"], some ["0->1", "1->0"])) ∧
      ∃ hops keptHops,
        graphHops ["python_v10", "go_v10", "go_v03"]
          (some ["0->1", "0->2", "1->0", "2->0"]) = .ok hops ∧
        graphHops ["go_v10", "go_v03"] (some ["0->1", "1->0"]) = .ok keptHops ∧
        ("go_v10", "go_v03") ∈ keptHops ∧ ("go_v10", "go_v03") ∉ hops ∧
        keptHops ≠ usableHops ["go_v10", "go_v03"] hops :=
  ⟨.star (by decide), by decide,
    [("python_v10", "go_v10"), ("python_v10", "go_v03"), ("go_v10", "python_v10"),
      ("go_v03", "python_v10")],
    [("go_v10", "go_v03"), ("go_v03", "go_v10")],
    by decide, by decide, by decide, by decide, by decide⟩

end Restriction

end A2aItk.Scenarios
