import A2aItk.Traversal.AgentSemantics

/-!
# The contract of a traversal

Running a scenario should make each hop of its graph once per transport, trace
it truthfully, and bring every expected token back. The reply always brings the
tokens back. The hops are the graph's own, and the trace is true, exactly where
the edges hang together with the first agent.
-/

namespace A2aItk.Traversal

open Python
open Multigraph

/-- What a traversal of `pairs` over `protocols` is for. -/
structure MeetsSpecification (pairs : List (String × String)) (protocols tokens : List String)
    (reply : String) (events : List Event) : Prop where
  exact : (calls events).Perm (protocols.flatMap fun t => pairs.map fun e => (e.1, e.2, t))
  honest : Honest events
  complete : ∀ token ∈ tokens, token.toList <:+: reply.toList

variable {listens : String → Option String} {agents : AgentTable} {root : String}
  {rest edges : List String} {pairs : List (String × String)}

/-- A traversal of a balanced graph is built, runs, and replies with every
expected token. -/
theorem traversal_runs (options : HopOptions) (protocols : List String) (hne : edges ≠ [])
    (hpairs : parseEdgeStrings edges (root :: rest) = .ok pairs)
    (hbalanced : DegreeBalanced (pairs : Multiset (String × String)))
    (hreaches : Reaches listens agents (root :: rest)) :
    ∃ suite circuits,
      createTestSuite (root :: rest) agents (some edges) (some protocols) options = .ok suite ∧
      (protocols ≠ [] → EulerCircuits (pairs : Multiset (String × String)) root circuits) ∧
      run listens suite.1 root =
        some (suiteReply protocols circuits, suiteEvents root protocols circuits) ∧
      ∀ token ∈ suite.2, token.toList <:+: (suiteReply protocols circuits).toList := by
  have hparsed := parseGivenEdges_of_ne_nil hne hpairs
  have htarget := targetEdges_of_parsed hne hpairs
  obtain ⟨-, -, -, suite, hsuite⟩ | ⟨hnot, -⟩ :=
    createTestSuite_cases options hreaches.addressed (some edges) (some protocols)
  · obtain ⟨circuits, hspec, hrun, htokens⟩ := run_createTestSuite hreaches hparsed hsuite
    rw [htarget] at hspec
    refine ⟨suite, circuits, hsuite, hspec, hrun, fun token htoken => ?_⟩
    rw [htokens] at htoken
    exact infix_suiteReply htoken
  · rw [← htarget] at hbalanced
    exact absurd hbalanced (hnot _ hparsed).2

/-- A traversal meets its specification exactly when every edge hangs together
with the first agent, or no transport is asked for. -/
theorem traversal_meets_specification_iff (options : HopOptions) (protocols : List String)
    (hne : edges ≠ []) (hpairs : parseEdgeStrings edges (root :: rest) = .ok pairs)
    (hbalanced : DegreeBalanced (pairs : Multiset (String × String)))
    (hreaches : Reaches listens agents (root :: rest)) :
    (∃ suite reply events,
      createTestSuite (root :: rest) agents (some edges) (some protocols) options = .ok suite ∧
      run listens suite.1 root = some (reply, events) ∧
      MeetsSpecification pairs protocols suite.2 reply events) ↔
    protocols = [] ∨ ∀ e ∈ pairs, Linked (pairs : Multiset (String × String)) root e.1 := by
  obtain ⟨suite, circuits, hsuite, hspec, hrun, htokens⟩ :=
    traversal_runs options protocols hne hpairs hbalanced hreaches
  by_cases hprotocols : protocols = []
  · refine iff_of_true ⟨suite, _, _, hsuite, hrun, ?_, ?_, htokens⟩ (Or.inl hprotocols)
    · rw [hprotocols]
      exact .nil
    · rw [hprotocols]
      exact honest_nil
  · have hcircuits := hspec hprotocols
    constructor
    · rintro ⟨suite', reply, events, hsuite', hrun', hmeets⟩
      obtain rfl := Except.ok.inj (hsuite.symm.trans hsuite')
      cases hrun.symm.trans hrun'
      exact (honest_suiteEvents_iff hcircuits protocols).mp hmeets.honest
    · intro hlinked
      refine ⟨suite, _, _, hsuite, hrun, ?_, ?_, htokens⟩
      · apply calls_suiteEvents_of_head _ (Multiset.coe_eq_coe.mp hcircuits.covers)
        exact fun c hc => hcircuits.head_of_linked (hlinked.resolve_left hprotocols) hc
      · exact (honest_suiteEvents_iff hcircuits protocols).mpr hlinked

section Examples

theorem linked_traversal_meets_specification :
    (∃ suite reply events,
      createTestSuite ["a", "b", "c"] threeAgents (some ["0->1", "1->0"]) (some ["grpc"]) {} =
        .ok suite ∧
      run threeListening suite.1 "a" = some (reply, events) ∧
      MeetsSpecification [("a", "b"), ("b", "a")] ["grpc"] suite.2 reply events) ↔
    ["grpc"] = [] ∨ ∀ e ∈ [("a", "b"), ("b", "a")],
      Linked (([("a", "b"), ("b", "a")] : List _) : Multiset (String × String)) "a" e.1 :=
  traversal_meets_specification_iff {} ["grpc"] (by decide) (by decide) (by decide)
    threeAgents_reached

/-- The cycle of the other two agents is started by the first one. -/
theorem detached_cycle_fails_specification :
    parseEdgeStrings ["1->2", "2->1"] ["a", "b", "c"] = .ok [("b", "c"), ("c", "b")] ∧
    DegreeBalanced (([("b", "c"), ("c", "b")] : List _) : Multiset (String × String)) ∧
    ¬ ∃ suite reply events,
      createTestSuite ["a", "b", "c"] threeAgents (some ["1->2", "2->1"]) (some ["grpc"]) {} =
        .ok suite ∧
      run threeListening suite.1 "a" = some (reply, events) ∧
      MeetsSpecification [("b", "c"), ("c", "b")] ["grpc"] suite.2 reply events := by
  refine ⟨by decide, by decide, ?_⟩
  rintro ⟨suite, reply, events, hsuite, hrun, hspec⟩
  have hreally : (createTestSuite ["a", "b", "c"] threeAgents (some ["1->2", "2->1"])
      (some ["grpc"]) {}).toOption.bind (fun s => (run threeListening s.1 "a").map Prod.snd) =
        some [.emit "a" "[b -> c (grpc)]", .call "a" "c" "grpc",
          .emit "c" "[c -> b (grpc)]", .call "c" "b" "grpc",
          .emit "b" "traversal-completed:grpc"] := by decide
  rw [hsuite] at hreally
  simp only [Except.toOption, Option.bind_some, hrun, Option.map_some, Option.some.injEq]
    at hreally
  subst hreally
  exact absurd hspec.exact (by decide)

end Examples

end A2aItk.Traversal
