import A2aItk.Execution.Accounting

/-!
# Edges an author wrote

A `traversal/v1` scenario with explicit `edges` names its agents by index: the
SUT, then the peers as requested. Three stages can take agents out of that list
before the edges are read: the transports of the matrix, the known failures, and
the agents that fail to start.

## Implementation notes

The rules and the start-up give such a scenario up. The transports do not: an
agent is left out of the list and every index behind it moves. A scenario that is
expanded into subtests is run over every selection of the agents left that its edges
allow, so the edges are looked at selection by selection. A selection without an edge
of its own is run over the complete digraph.
-/

namespace A2aItk.Execution

open Python Scenarios Multigraph
open Traversal

/-- The agents that written indices refer to. -/
def requestedAgents (d : TraversalScenarioV1) (matrix : Matrix) (transports : List Transport)
    (sutSdk : Option String) : Except PyError (List String) := do
  let peers ← peerIds d matrix transports sutSdk
  pure (sut d ++ peers)

/-- The agents whose edges are read, once those that lack a transport have left. -/
def capableAgents (d : TraversalScenarioV1) (matrix : Matrix) (transports : List Transport)
    (peers : List String) : List String :=
  sut d ++ peers.filter fun p => supportsAll matrix p transports

/-- Every hop of the test is the author's. It makes the hops of the written edges among
its agents, and each of these names the same two agents in the list it is read over and
in the one it was written for. -/
def AsWritten (es requested kept : List String) (t : Executed) : Prop :=
  ∀ root rest parsed circuits, t.sdks = root :: rest →
    parseGivenEdges t.sdks t.edges = .ok parsed →
    eulerTraversalWithHierholzer root t.sdks parsed = .ok circuits →
    ∃ made : List (String × String),
      List.Forall₂ (fun e hop => Spells kept e hop ∧
        (hop.1 ∈ t.sdks → hop.2 ∈ t.sdks → Spells requested e hop)) es made ∧
      (circuits.flatMap hops).Perm (among t.sdks made)

/-- The selections of agents a scenario is run over. -/
def tested (buildSubtests : Bool) (kept : List String) : List (List String) :=
  if buildSubtests then candidates kept else [kept]

/-- Where the written edges among a selection can be traversed, every index they use
still names the agent requested. A selection without an edge has no two agents. -/
def Undisturbed (es requested kept sub : List String) : Prop :=
  ∀ pairs, parseEdgeStrings es kept = .ok pairs →
    (among sub pairs = [] → ∀ u ∈ sub, ∀ v ∈ sub, u = v) ∧
    (DegreeBalanced (among sub pairs : Multiset (String × String)) →
      ∀ e ∈ es, ∀ i j : Nat, readIndices e = .ok ((i : Int), (j : Int)) →
        ∀ u ∈ kept[i]?, ∀ v ∈ kept[j]?, u ∈ sub → v ∈ sub →
          requested[i]? = some u ∧ requested[j]? = some v)

section Hops

variable {es requested kept sub : List String} {e : String} {hop : String × String}
  {pairs : List (String × String)} {t : Executed}

theorem getElem?_of_lt {l : List String} {i : Nat} (h : i < l.length) :
    l[i]? = some (l.getD i "") := by
  rw [List.getD_eq_getElem?_getD, List.getElem?_eq_getElem h]
  rfl

/-- An edge read over both lists names the same agents when its indices do. -/
theorem spells_both_iff (hkept : Spells kept e hop) :
    Spells requested e hop ↔ ∀ i j : Nat, readIndices e = .ok ((i : Int), (j : Int)) →
      ∀ u ∈ kept[i]?, ∀ v ∈ kept[j]?, requested[i]? = some u ∧ requested[j]? = some v := by
  obtain ⟨u, v, hread, hu, hv, rfl⟩ := hkept
  constructor
  · rintro ⟨u', v', hread', hu', hv', hpair⟩ i j hij a ha b hb
    obtain ⟨hi, hj⟩ := Prod.mk.inj (Except.ok.inj (hij.symm.trans hread))
    obtain ⟨hi', hj'⟩ := Prod.mk.inj (Except.ok.inj (hread'.symm.trans hread))
    obtain ⟨hfst, hsnd⟩ := Prod.mk.inj hpair
    obtain rfl : i = u := by exact_mod_cast hi
    obtain rfl : j = v := by exact_mod_cast hj
    obtain rfl : u' = i := by exact_mod_cast hi'
    obtain rfl : v' = j := by exact_mod_cast hj'
    rw [getElem?_of_lt hu, Option.mem_some_iff] at ha
    rw [getElem?_of_lt hv, Option.mem_some_iff] at hb
    rw [getElem?_of_lt hu', getElem?_of_lt hv', ← ha, ← hb, hfst, hsnd]
    exact ⟨rfl, rfl⟩
  · intro h
    obtain ⟨hfst, hsnd⟩ := h u v hread _ (getElem?_of_lt hu) _ (getElem?_of_lt hv)
    obtain ⟨hu', -⟩ := List.getElem?_eq_some_iff.mp hfst
    obtain ⟨hv', -⟩ := List.getElem?_eq_some_iff.mp hsnd
    rw [getElem?_of_lt hu'] at hfst
    rw [getElem?_of_lt hv'] at hsnd
    exact ⟨u, v, hread, hu', hv', by rw [Option.some.inj hfst, Option.some.inj hsnd]⟩

/-- The indices of a read edge name the agents of its hop. -/
theorem hop_of_indices (hkept : Spells kept e hop) {i j : Nat}
    (hread : readIndices e = .ok ((i : Int), (j : Int))) :
    kept[i]? = some hop.1 ∧ kept[j]? = some hop.2 := by
  obtain ⟨u, v, hread', hu, hv, rfl⟩ := hkept
  obtain ⟨hi, hj⟩ := Prod.mk.inj (Except.ok.inj (hread.symm.trans hread'))
  obtain rfl : i = u := by exact_mod_cast hi
  obtain rfl : j = v := by exact_mod_cast hj
  exact ⟨getElem?_of_lt hu, getElem?_of_lt hv⟩

theorem circuits_perm {root : String} {parsed : Option (List (String × String))}
    {circuits : List (List String)}
    (h : eulerTraversalWithHierholzer root kept parsed = .ok circuits) :
    (circuits.flatMap hops).Perm (targetEdges kept parsed) :=
  Multiset.coe_eq_coe.mp (eulerTraversal_spec h).covers

theorem mem_among : hop ∈ among sub pairs ↔ hop ∈ pairs ∧ hop.1 ∈ sub ∧ hop.2 ∈ sub := by
  simp [among]

/-- The hops of a read list of edges are the ones its edges spell. -/
theorem pairs_of_forall₂ {made : List (String × String)} {p : String → String × String → Prop}
    (hpairs : parseEdgeStrings es kept = .ok pairs)
    (h : List.Forall₂ (fun e hop => Spells kept e hop ∧ p e hop) es made) : made = pairs := by
  have hspells := parseEdgeStrings_eq_ok_iff.mpr (h.imp fun _ _ both => both.1)
  exact Except.ok.inj (hspells.symm.trans hpairs)

/-- A test whose hops are the author's leaves no index behind. -/
theorem undisturbed_of_asWritten {parsed : Option (List (String × String))}
    (hpairs : parseEdgeStrings es kept = .ok pairs) (hne : t.sdks ≠ [])
    (hparsed : parseGivenEdges t.sdks t.edges = .ok parsed)
    (htarget : targetEdges t.sdks parsed = traversedEdges (some pairs) t.sdks)
    (h : AsWritten es requested kept t) : Undisturbed es requested kept t.sdks := by
  obtain ⟨root, rest, hroot⟩ := List.exists_cons_of_ne_nil hne
  have hmade : DegreeBalanced (traversedEdges (some pairs) t.sdks : Multiset (String × String)) →
      List.Forall₂ (fun e hop => Spells kept e hop ∧
        (hop.1 ∈ t.sdks → hop.2 ∈ t.sdks → Spells requested e hop)) es pairs ∧
      (traversedEdges (some pairs) t.sdks).Perm (among t.sdks pairs) := by
    intro hbalanced
    obtain ⟨-, circuits, hcircuits, -⟩ | ⟨hnot, -⟩ := eulerTraversal_cases root t.sdks parsed
    · obtain ⟨made, hmade, hperm⟩ := h root rest parsed circuits hroot hparsed hcircuits
      obtain rfl := pairs_of_forall₂ hpairs hmade
      refine ⟨hmade, ?_⟩
      rw [← htarget]
      exact (circuits_perm hcircuits).symm.trans hperm
    · exact absurd (htarget.symm ▸ hbalanced) hnot
  intro pairs' hpairs'
  obtain rfl := Except.ok.inj (hpairs.symm.trans hpairs')
  constructor
  · intro hnone
    have hperm := (hmade (balanced_traversedEdges_of_nil hnone)).2
    rw [hnone] at hperm
    have hcomplete : traversedEdges (some pairs) t.sdks = targetEdges t.sdks none := if_pos hnone
    exact targetEdges_none_eq_nil_iff.mp (hcomplete.symm.trans hperm.eq_nil)
  · intro hbalanced e he i j hread u hu v hv husub hvsub
    obtain ⟨hop, hhop, hkept⟩ := exists_left_of_mem (parseEdgeStrings_eq_ok_iff.mp hpairs).flip he
    obtain ⟨hfst, hsnd⟩ := hop_of_indices hkept hread
    obtain rfl := Option.some.inj (hfst.symm.trans hu)
    obtain rfl := Option.some.inj (hsnd.symm.trans hv)
    have hsome : inducedEdges (some pairs) t.sdks ≠ [] :=
      List.ne_nil_of_mem (mem_among.mpr ⟨hhop, husub, hvsub⟩)
    have hboth := (hmade ((traversedEdges_of_ne_nil hsome).symm ▸ hbalanced)).1
    obtain ⟨hop', -, hkept', hrequested⟩ := exists_left_of_mem hboth.flip he
    obtain ⟨hfst', hsnd'⟩ := hop_of_indices hkept' hread
    have hsame : hop' = hop :=
      Prod.ext (Option.some.inj (hfst'.symm.trans hfst)) (Option.some.inj (hsnd'.symm.trans hsnd))
    subst hsame
    exact (spells_both_iff hkept').mp (hrequested husub hvsub) i j hread _ hfst _ hsnd

/-- Where no index is left behind, the hops of a test are the author's. -/
theorem asWritten_of_undisturbed {parsed : Option (List (String × String))}
    (hpairs : parseEdgeStrings es kept = .ok pairs)
    (hparsed : parseGivenEdges t.sdks t.edges = .ok parsed)
    (htarget : targetEdges t.sdks parsed = traversedEdges (some pairs) t.sdks)
    (h : Undisturbed es requested kept t.sdks) : AsWritten es requested kept t := by
  intro root rest parsed' circuits _ hparsed' hcircuits
  obtain rfl := Except.ok.inj (hparsed.symm.trans hparsed')
  obtain ⟨halone, hsame⟩ := h pairs hpairs
  have hperm := circuits_perm hcircuits
  rw [htarget] at hperm
  have htraversed : traversedEdges (some pairs) t.sdks = among t.sdks pairs := by
    by_cases hnone : inducedEdges (some pairs) t.sdks = []
    · have hnil : targetEdges t.sdks none = [] := targetEdges_none_eq_nil_iff.mpr (halone hnone)
      rw [traversedEdges, if_pos hnone, hnil]
      exact hnone.symm
    · exact traversedEdges_of_ne_nil hnone
  have hbalanced : DegreeBalanced (among t.sdks pairs : Multiset (String × String)) := by
    obtain ⟨hb, -⟩ | ⟨-, e, herror, -⟩ := eulerTraversal_cases root t.sdks parsed
    · rwa [htarget, htraversed] at hb
    · exact absurd (herror.symm.trans hcircuits) (by simp)
  refine ⟨pairs, ?_, htraversed ▸ hperm⟩
  have hspells := parseEdgeStrings_eq_ok_iff.mp hpairs
  refine List.forall₂_iff_get.mpr ⟨hspells.length_eq, fun i hi hi' => ?_⟩
  have hkept := (List.forall₂_iff_get.mp hspells).2 i hi hi'
  refine ⟨hkept, fun hu hv => (spells_both_iff hkept).mpr ?_⟩
  intro a b hread u hua v hvb
  obtain ⟨hfst, hsnd⟩ := hop_of_indices hkept hread
  obtain rfl := Option.some.inj (hfst.symm.trans hua)
  obtain rfl := Option.some.inj (hsnd.symm.trans hvb)
  exact hsame hbalanced _ (List.get_mem _ _) a b hread _ hua _ hvb hu hv

theorem asWritten_iff {name : String} {passed : Bool} {edges : Option (List String)}
    {parsed : Option (List (String × String))}
    (hpairs : parseEdgeStrings es kept = .ok pairs) (hne : sub ≠ [])
    (hparsed : parseGivenEdges sub edges = .ok parsed)
    (htarget : targetEdges sub parsed = traversedEdges (some pairs) sub) :
    AsWritten es requested kept ⟨name, passed, sub, edges⟩ ↔
      Undisturbed es requested kept sub := by
  let t : Executed := ⟨name, passed, sub, edges⟩
  constructor
  · intro h
    exact undisturbed_of_asWritten (t := t) hpairs hne hparsed htarget h
  · intro h
    exact asWritten_of_undisturbed (t := t) hpairs hparsed htarget h

/-- A selection that cannot be traversed disturbs no edge. -/
theorem undisturbed_of_unbalanced (hpairs : parseEdgeStrings es kept = .ok pairs)
    (h : ¬ DegreeBalanced (traversedEdges (some pairs) sub : Multiset (String × String))) :
    Undisturbed es requested kept sub := by
  intro pairs' hpairs'
  obtain rfl := Except.ok.inj (hpairs.symm.trans hpairs')
  have hsome : inducedEdges (some pairs) sub ≠ [] :=
    fun hnone => h (balanced_traversedEdges_of_nil hnone)
  refine ⟨fun hnone => absurd hnone hsome, fun hbalanced => absurd ?_ h⟩
  rw [traversedEdges_of_ne_nil hsome]
  exact hbalanced

end Hops

section Tests

variable {es : List String} {r : Runnable} {agents : AgentTable}

/-- A scenario that is not expanded is one test, over its own edges. -/
theorem asWritten_whole_iff {requested : List String} {name : String} {passed : Bool}
    (hne : r.sdks ≠ []) :
    AsWritten es requested r.sdks ⟨name, passed, r.sdks, some es⟩ ↔
      Undisturbed es requested r.sdks r.sdks := by
  cases hparse : parseEdgeStrings es r.sdks with
  | error e =>
      refine iff_of_true ?_ fun pairs hpairs => absurd (hparse.symm.trans hpairs) (by simp)
      intro root rest parsed circuits _ hparsed _
      cases es with
      | nil => cases hparse
      | cons edge edges =>
          rw [parseGivenEdges, hparse] at hparsed
          cases hparsed
  | ok pairs =>
      have htarget : ∃ parsed, parseGivenEdges r.sdks (some es) = .ok parsed ∧
          targetEdges r.sdks parsed = traversedEdges (some pairs) r.sdks := by
        by_cases hes : es = []
        · subst hes
          obtain rfl : [] = pairs := Except.ok.inj hparse
          exact ⟨none, rfl, rfl⟩
        · have hwhole := targetEdges_of_parsed hes hparse
          refine ⟨some pairs, parseGivenEdges_of_ne_nil hes hparse, ?_⟩
          have hspells := parseEdgeStrings_eq_ok_iff.mp hparse
          have hall : among r.sdks pairs = pairs := by
            refine List.filter_eq_self.mpr fun hop hhop => ?_
            obtain ⟨e, -, hspell⟩ := exists_left_of_mem hspells hhop
            simpa using hspell.mem
          have hsome : inducedEdges (some pairs) r.sdks ≠ [] := by
            obtain ⟨e, es', rfl⟩ := List.exists_cons_of_ne_nil hes
            change among r.sdks pairs ≠ []
            rw [hall]
            rintro rfl
            cases hspells
          rw [hwhole, traversedEdges_of_ne_nil hsome]
          exact hall.symm
      obtain ⟨parsed, hparsed, htarget⟩ := htarget
      exact asWritten_iff hparse hne hparsed htarget

/-- The tests of a scenario make the author's hops exactly when no selection they are
run over disturbs an edge. -/
theorem runTests_asWritten_iff (requested : List String) (outcome : Nat → Outcome)
    (hedges : r.edges = some es) (hne : r.sdks ≠ []) (haddr : Addressed agents r.sdks) :
    ∃ tests, runTests r agents outcome = .ok tests ∧
      ((∀ t ∈ tests, AsWritten es requested r.sdks t) ↔
        ∀ sub ∈ tested r.scenario.buildSubtests r.sdks,
          Undisturbed es requested r.sdks sub) := by
  unfold runTests tested
  cases hbuild : r.scenario.buildSubtests with
  | false =>
      refine ⟨_, rfl, ?_⟩
      simp only [Bool.false_eq_true, if_false, List.forall_mem_singleton, hedges]
      exact asWritten_whole_iff hne
  | true =>
      simp only [Bool.not_true, Bool.false_eq_true, if_false, if_true]
      cases hparse : parseEdgeStrings es r.sdks with
      | error e =>
          have hown : ownEdges r.sdks r.edges = .error e := by
            rw [hedges, ownEdges, hparse]
            rfl
          rw [getValidSubgraphs_of_error _ _ _ hown]
          refine ⟨_, rfl, iff_of_true (by simp) ?_⟩
          intro sub _ pairs hpairs
          exact absurd (hparse.symm.trans hpairs) (by simp)
      | ok pairs =>
          have hown : ownEdges r.sdks r.edges = .ok (some pairs) := by
            rw [hedges, ownEdges, hparse]
            rfl
          obtain ⟨root, rest, hroot⟩ := List.exists_cons_of_ne_nil hne
          rw [hroot] at hown haddr
          obtain ⟨subs, hsubs, hsdks, hall⟩ := getValidSubgraphs_spec r.scenario.protocols
            r.scenario.behavior r.scenario.streaming hown haddr
          rw [← hroot] at hsubs hsdks hall
          rw [hsubs]
          refine ⟨_, rfl, ?_⟩
          have heach : ∀ s ∈ subs, ∀ name passed,
              (AsWritten es requested r.sdks ⟨name, passed, s.sdks, s.edges⟩ ↔
                Undisturbed es requested r.sdks s.sdks) := by
            intro s hs name passed
            obtain ⟨hcand, parsed, hparsed, htarget⟩ := hall s hs
            have hpos : s.sdks ≠ [] := by
              have htwo := of_decide_eq_true (List.mem_filter.mp hcand).2
              intro hnil
              simp [hnil] at htwo
            exact asWritten_iff hparse hpos hparsed htarget
          constructor
          · intro h sub hsub
            by_cases hkeep : r.scenario.protocols.getD allTransports = [] ∨
                DegreeBalanced (traversedEdges (some pairs) sub : Multiset (String × String))
            · have hmem : sub ∈ subs.map Subgraph.sdks := by
                rw [hsdks]
                exact List.mem_filter.mpr ⟨hsub, decide_eq_true hkeep⟩
              obtain ⟨s, hs, rfl⟩ := List.mem_map.mp hmem
              obtain ⟨k, hk, rfl⟩ := List.mem_iff_getElem.mp hs
              refine (heach _ hs _ _).mp (h _ (List.mem_map.mpr ⟨(subs[k], k), ?_, rfl⟩))
              exact List.mem_zipIdx_iff_getElem?.mpr (List.getElem?_eq_getElem hk)
            · exact undisturbed_of_unbalanced hparse fun hb => hkeep (.inr hb)
          · intro h t ht
            obtain ⟨⟨s, k⟩, hmem, rfl⟩ := List.mem_map.mp ht
            have hs := List.fst_mem_of_mem_zipIdx hmem
            exact (heach s hs _ _).mpr (h s.sdks (hall s hs).1)

end Tests

section Resolved

variable {d : TraversalScenarioV1} {matrix : Matrix} {sutSdk : Option String}
  {known : KnownFailures} {report batch : ResolutionReport} {declared : List Declared}
  {es : List String} {v : Variant} {peers : List String}

/-- No rule takes an agent out of the group. -/
def Admitted (known : KnownFailures) (sutSdk : Option String) (v : Variant)
    (agents : List String) : Prop :=
  ∀ a ∈ agents, a = sutId ∨
    known.find [sutId, a] (some (v.transports.map Transport.value)) v.behavior.value v.streaming
      sutSdk = none

/-- The scenario a variant with written edges is emitted as. -/
def explicitScenario (d : TraversalScenarioV1) (es : List String) (v : Variant)
    (agents : List String) : ResolvedScenario where
  name := nameOf d v.behavior v.transports v.streaming (multiAxes d) none
  sdks := agents
  behavior := v.behavior.value
  edges := some es
  protocols := some (v.transports.map Transport.value)
  streaming := v.streaming
  buildSubtests := d.buildSubtests
  tier := d.tier.value
  topology := none

theorem groups_together (htogether : d.expand = .together) {found : List Group} :
    groups d matrix v.transports sutSdk = .ok found ↔
      ∃ peers, peerIds d matrix v.transports sutSdk = .ok peers ∧
        found = [⟨capableAgents d matrix v.transports peers, v.transports, none⟩] := by
  rw [groups, bind_eq_ok_iff, htogether]
  constructor
  · rintro ⟨peers, hpeers, h⟩
    exact ⟨peers, hpeers, (Except.ok.inj h).symm⟩
  · rintro ⟨peers, hpeers, rfl⟩
    exact ⟨peers, hpeers, rfl⟩

theorem applyExclusions_of_admitted {agents : List String} (h : Admitted known sutSdk v agents) :
    applyExclusions agents known v.transports v.behavior v.streaming sutSdk = (agents, []) := by
  have hnone : ∀ a ∈ agents, (if a = sutId then none else
      known.find [sutId, a] (some (v.transports.map Transport.value)) v.behavior.value v.streaming
        sutSdk) = none := by
    intro a ha
    split
    · rfl
    · exact (h a ha).resolve_left ‹_›
  refine Prod.ext ?_ ?_
  · refine List.filter_eq_self.mpr fun a ha => ?_
    simp only [hnone a ha, Option.isNone_none]
  · refine List.filterMap_eq_nil_iff.mpr fun a ha => ?_
    simp only [hnone a ha, Option.map_none]

theorem exists_dropped {agents : List String} (h : ¬ Admitted known sutSdk v agents) :
    ∃ a ∈ agents,
      a ∉ (applyExclusions agents known v.transports v.behavior v.streaming sutSdk).1 := by
  unfold Admitted at h
  push Not at h
  obtain ⟨a, ha, hsut, hhit⟩ := h
  refine ⟨a, ha, fun hkept => hhit ?_⟩
  simpa [applyExclusions, ha, hsut] using hkept

/-- One variant with written edges: it is emitted over its capable agents, or
skipped. -/
theorem mem_expandGroup_explicit_iff (hedges : d.edges = some es) {agents : List String}
    (h : expandGroup d sutSdk known v ⟨agents, v.transports, none⟩ = .ok report)
    {s : ResolvedScenario} :
    s ∈ report.scenarios ↔ Admitted known sutSdk v agents ∧ s = explicitScenario d es v agents := by
  have htopology : resolvedTopology d = none := by simp [resolvedTopology, hedges]
  unfold expandGroup at h
  by_cases hfew : agents.length < minAgents
  · simp [hfew] at h
  · rw [if_neg hfew] at h
    dsimp only at h
    rw [htopology, hedges] at h
    by_cases hadmitted : Admitted known sutSdk v agents
    · rw [applyExclusions_of_admitted hadmitted] at h
      dsimp only at h
      rw [restrictToAvailable_whole _ (fun _ ha => ha) (not_lt.mp hfew)] at h
      obtain rfl := Except.ok.inj h
      simp [hadmitted, explicitScenario]
    · rw [restrictToAvailable_missing es (exists_dropped hadmitted), ok_bind] at h
      dsimp only at h
      split at h
      · cases h
      · obtain rfl := Except.ok.inj h
        simp [hadmitted]

/-- What a declaration with written edges is resolved to. -/
theorem mem_resolveOne_explicit_iff (hedges : d.edges = some es)
    (htogether : d.expand = .together)
    (h : resolveOne matrix sutSdk known (.traversal d) = .ok report) {s : ResolvedScenario} :
    s ∈ report.scenarios ↔ skipReason d sutSdk = none ∧ ∃ v ∈ variants d, ∃ peers,
      peerIds d matrix v.transports sutSdk = .ok peers ∧
      Admitted known sutSdk v (capableAgents d matrix v.transports peers) ∧
      s = explicitScenario d es v (capableAgents d matrix v.transports peers) := by
  cases hskip : skipReason d sutSdk with
  | some why =>
      rw [resolveOne_of_skipReason hskip] at h
      obtain rfl := Except.ok.inj h
      simp
  | none =>
      rw [resolveOne_of_admitted hskip] at h
      rw [mem_expand_iff h]
      constructor
      · rintro ⟨v, hv, r, hr, hs⟩
        obtain ⟨found, reports, hfound, -, -⟩ := expandVariant_eq_ok_iff.mp hr
        rw [mem_expandVariant_iff hfound hr] at hs
        obtain ⟨peers, hpeers, rfl⟩ := (groups_together htogether).mp hfound
        obtain ⟨g, hg, r', hr', hs⟩ := hs
        obtain rfl := List.mem_singleton.mp hg
        exact ⟨rfl, v, hv, peers, hpeers, (mem_expandGroup_explicit_iff hedges hr').mp hs⟩
      · rintro ⟨-, v, hv, peers, hpeers, hadmitted, rfl⟩
        obtain ⟨r, hr⟩ := exists_expandVariant h hv
        have hfound := (groups_together htogether).mpr ⟨peers, hpeers, rfl⟩
        obtain ⟨found, reports, hfound', hreports, -⟩ := expandVariant_eq_ok_iff.mp hr
        obtain rfl := Except.ok.inj (hfound.symm.trans hfound')
        obtain ⟨r', -, hr'⟩ := exists_left_of_mem hreports.flip (List.mem_singleton_self _)
        refine ⟨v, hv, r, hr, (mem_expandVariant_iff hfound hr).mpr ⟨_, by simp, r', hr', ?_⟩⟩
        exact (mem_expandGroup_explicit_iff hedges hr').mpr ⟨hadmitted, rfl⟩

/-- An emitted group is not empty. -/
theorem capableAgents_ne_nil (htogether : d.expand = .together)
    (h : resolveOne matrix sutSdk known (.traversal d) = .ok report)
    (hskip : skipReason d sutSdk = none) (hv : v ∈ variants d)
    (hpeers : peerIds d matrix v.transports sutSdk = .ok peers) :
    capableAgents d matrix v.transports peers ≠ [] := by
  rw [resolveOne_of_admitted hskip] at h
  obtain ⟨r, hr⟩ := exists_expandVariant h hv
  obtain ⟨found, reports, hfound, hreports, -⟩ := expandVariant_eq_ok_iff.mp hr
  have hfound' := (groups_together htogether).mpr ⟨peers, hpeers, rfl⟩
  obtain rfl := Except.ok.inj (hfound'.symm.trans hfound)
  obtain ⟨r', -, hr'⟩ := exists_left_of_mem hreports.flip (List.mem_singleton_self _)
  intro hnil
  have hlen := length_of_expandGroup hr'
  simp [hnil, minAgents] at hlen

/-- Every hop of every test of every scenario a declaration resolves to, run over
whatever agents came up, is the author's, exactly when no agent that lacks a transport
leaves the list from before a written index of a selection that is run, and no selection
is run without an edge. -/
theorem explicit_edges_as_written_iff
    (hbatch : resolveAll declared matrix sutSdk known = .ok batch)
    (hd : .traversal d ∈ declared) (hedges : d.edges = some es)
    (htogether : d.expand = .together) :
    (∀ report, resolveOne matrix sutSdk known (.traversal d) = .ok report →
      ∀ agents selection, selectRunnable batch.scenarios agents = .ok selection →
      ∀ r ∈ selection.runnable, r.scenario ∈ report.scenarios →
      ∀ transports requested, r.scenario.protocols = some (transports.map Transport.value) →
        requestedAgents d matrix transports sutSdk = .ok requested →
      ∀ outcome tests, runTests r agents outcome = .ok tests →
        ∀ t ∈ tests, AsWritten es requested r.sdks t) ↔
    (skipReason d sutSdk = none → ∀ v ∈ variants d, ∀ peers,
      peerIds d matrix v.transports sutSdk = .ok peers →
      Admitted known sutSdk v (capableAgents d matrix v.transports peers) →
      ∀ sub ∈ tested d.buildSubtests (capableAgents d matrix v.transports peers),
        Undisturbed es (sut d ++ peers) (capableAgents d matrix v.transports peers) sub) := by
  obtain ⟨report, hreport⟩ := exists_resolveOne hbatch hd
  constructor
  · intro h hskip v hv peers hpeers hadmitted
    have hne := capableAgents_ne_nil htogether hreport hskip hv hpeers
    let s := explicitScenario d es v (capableAgents d matrix v.transports peers)
    have hs : s ∈ report.scenarios :=
      (mem_resolveOne_explicit_iff hedges htogether hreport).mpr
        ⟨hskip, v, hv, peers, hpeers, hadmitted, rfl⟩
    -- every agent of the scenario comes up
    let agents : AgentTable := ⟨s.sdks.map fun a => (a, ⟨0⟩)⟩
    have hstarted : ∀ a ∈ s.sdks, a ∈ startedIds agents := by
      simp [agents, startedIds, Function.comp_def]
    obtain ⟨selection, hselection⟩ := exists_selectRunnable batch.scenarios agents
    have hr : ⟨s, s.sdks, s.edges⟩ ∈ selection.runnable :=
      (mem_selectRunnable_iff hselection).mpr
        ⟨(mem_resolveAll_iff hbatch).mpr ⟨_, hd, report, hreport, hs⟩, _,
          selectOne_whole hstarted, List.mem_singleton_self _⟩
    obtain ⟨tests, htests, hiff⟩ := runTests_asWritten_iff (r := ⟨s, s.sdks, s.edges⟩)
      (sut d ++ peers) (fun _ => .raised) rfl hne (addressed_of_started hstarted)
    refine hiff.mp ?_
    refine h report hreport agents selection hselection _ hr hs v.transports _ rfl ?_ _ tests htests
    rw [requestedAgents, hpeers]
    rfl
  · intro h report' hreport' agents selection hselection r hr hs transports requested hprotocols
      hrequested outcome tests htests
    obtain ⟨hskip, v, hv, peers, hpeers, hadmitted, hscenario⟩ :=
      (mem_resolveOne_explicit_iff hedges htogether hreport').mp hs
    obtain ⟨-, part, hpart, hr⟩ := (mem_selectRunnable_iff hselection).mp hr
    have hstarted := selectOne_started hpart hr
    have hexplicit : r.scenario.topology = none ∧ r.scenario.edges = some es := by
      rw [hscenario]
      exact ⟨rfl, rfl⟩
    have hwhole := selectOne_explicit hexplicit.1 hexplicit.2 hpart hr
    have hsdks : r.sdks = capableAgents d matrix v.transports peers := by
      rw [hwhole, hscenario]
      rfl
    have htransports : transports = v.transports := by
      rw [hscenario] at hprotocols
      exact (List.map_injective_iff.mpr transport_value_injective)
        (Option.some.inj hprotocols).symm
    subst htransports
    rw [requestedAgents, hpeers] at hrequested
    obtain rfl := Except.ok.inj hrequested
    have hne : r.sdks ≠ [] := by
      rw [hsdks]
      exact capableAgents_ne_nil htogether hreport' hskip hv hpeers
    have hedges' : r.edges = some es := by rw [hwhole]
    obtain ⟨tests', htests', hiff⟩ := runTests_asWritten_iff (sut d ++ peers) outcome hedges' hne
      (addressed_of_started hstarted)
    obtain rfl := Except.ok.inj (htests'.symm.trans htests)
    refine hiff.mpr ?_
    rw [hsdks, hscenario]
    exact h hskip v hv peers hpeers hadmitted

end Resolved

section Examples

/-- The SUT and the first of two peers, over gRPC. -/
def firstPeerOnly : TraversalScenarioV1 where
  name := "first peer"
  roles := { peers := .named [⟨"go", "v03", none⟩, ⟨"python", "v10", none⟩] }
  behavior := some .sendMessage
  transports := some [.grpc]
  edges := some ["0->1", "1->0"]
  accepted := rfl

/-- The same pair beside a third peer that is only called, run selection by selection. -/
def oneWayThird : TraversalScenarioV1 where
  name := "gap"
  roles := { peers := .named [⟨"go", "v03", none⟩, ⟨"python", "v10", none⟩, ⟨"rust", "v10", none⟩] }
  behavior := some .sendMessage
  transports := some [.grpc]
  edges := some ["0->1", "1->0", "0->2"]
  buildSubtests := true
  accepted := rfl

def goPythonRust (goTransports : List String) : Matrix where
  rows := [
    { sdk := "go", line := "v03", repo := "a2a-go", ref := "v0.3", transports := goTransports },
    { sdk := "python", line := "v10", repo := "a2a-python", ref := "v1.0" },
    { sdk := "rust", line := "v10", repo := "a2a-rs", ref := "v1.0" }]
  distinct := by
    change [("go", "v03"), ("python", "v10"), ("rust", "v10")].Nodup
    decide

/-- What a declaration over gRPC is emitted as over the agents that have it. -/
def grpcBatch (d : TraversalScenarioV1) (es agents : List String) : ResolutionReport where
  scenarios := [explicitScenario d es ⟨.sendMessage, [.grpc], false⟩ agents]

theorem explicit_edges_as_written_pair :
    resolveAll [.traversal firstPeerOnly] (goPythonRust ["jsonrpc", "grpc"]) none {} =
        .ok (grpcBatch firstPeerOnly ["0->1", "1->0"] ["current", "go_v03", "python_v10"]) ∧
      ((∀ report, resolveOne (goPythonRust ["jsonrpc", "grpc"]) none {}
            (.traversal firstPeerOnly) = .ok report →
          ∀ agents selection,
            selectRunnable (grpcBatch firstPeerOnly ["0->1", "1->0"]
              ["current", "go_v03", "python_v10"]).scenarios agents = .ok selection →
          ∀ r ∈ selection.runnable, r.scenario ∈ report.scenarios →
          ∀ transports requested,
            r.scenario.protocols = some (transports.map Transport.value) →
            requestedAgents firstPeerOnly (goPythonRust ["jsonrpc", "grpc"]) transports none =
              .ok requested →
          ∀ outcome tests, runTests r agents outcome = .ok tests →
            ∀ t ∈ tests, AsWritten ["0->1", "1->0"] requested r.sdks t) ↔
        (skipReason firstPeerOnly none = none → ∀ v ∈ variants firstPeerOnly, ∀ peers,
          peerIds firstPeerOnly (goPythonRust ["jsonrpc", "grpc"]) v.transports none = .ok peers →
          Admitted {} none v
            (capableAgents firstPeerOnly (goPythonRust ["jsonrpc", "grpc"]) v.transports peers) →
          ∀ sub ∈ tested firstPeerOnly.buildSubtests
              (capableAgents firstPeerOnly (goPythonRust ["jsonrpc", "grpc"]) v.transports peers),
            Undisturbed ["0->1", "1->0"] (sut firstPeerOnly ++ peers)
              (capableAgents firstPeerOnly (goPythonRust ["jsonrpc", "grpc"]) v.transports peers)
              sub)) := by
  have hresolved :
      resolveAll [.traversal firstPeerOnly] (goPythonRust ["jsonrpc", "grpc"]) none {} =
        .ok (grpcBatch firstPeerOnly ["0->1", "1->0"] ["current", "go_v03", "python_v10"]) := rfl
  exact ⟨hresolved, explicit_edges_as_written_iff hresolved (List.mem_singleton_self _) rfl rfl⟩

/-- The agents of the batch, each at a port of its own. -/
def fourAgents : AgentTable :=
  ⟨[("current", ⟨1⟩), ("go_v03", ⟨2⟩), ("python_v10", ⟨3⟩), ("rust_v10", ⟨4⟩)]⟩

/-- A selection in which an index was left behind is run with other hops. -/
theorem not_asWritten_of_disturbed {r : Runnable} {es requested sub : List String}
    (hedges : r.edges = some es) (hne : r.sdks ≠ []) (haddr : Addressed fourAgents r.sdks)
    (hsub : sub ∈ tested r.scenario.buildSubtests r.sdks)
    (hdisturbed : ¬ Undisturbed es requested r.sdks sub) :
    ∃ tests, runTests r fourAgents (fun _ => .finished true) = .ok tests ∧
      ¬ ∀ t ∈ tests, AsWritten es requested r.sdks t := by
  obtain ⟨tests, htests, hiff⟩ :=
    runTests_asWritten_iff requested (fun _ => .finished true) hedges hne haddr
  exact ⟨tests, htests, fun h => hdisturbed (hiff.mp h sub hsub)⟩

/-- A first peer without gRPC leaves the list, and the hops go to the second: in a
scenario that is run whole, and in a selection of one that is not. -/
theorem explicit_edges_rewired :
    (∃ selection, ∃ r ∈ selection.runnable, ∃ tests,
      resolveAll [.traversal firstPeerOnly] (goPythonRust ["jsonrpc"]) none {} =
        .ok (grpcBatch firstPeerOnly ["0->1", "1->0"] ["current", "python_v10"]) ∧
      selectRunnable (grpcBatch firstPeerOnly ["0->1", "1->0"]
        ["current", "python_v10"]).scenarios fourAgents = .ok selection ∧
      requestedAgents firstPeerOnly (goPythonRust ["jsonrpc"]) [.grpc] none =
        .ok ["current", "go_v03", "python_v10"] ∧
      r.sdks = ["current", "python_v10"] ∧ r.edges = some ["0->1", "1->0"] ∧
      runTests r fourAgents (fun _ => .finished true) = .ok tests ∧
      ¬ ∀ t ∈ tests, AsWritten ["0->1", "1->0"] ["current", "go_v03", "python_v10"] r.sdks t) ∧
    ∃ selection, ∃ r ∈ selection.runnable, ∃ tests,
      resolveAll [.traversal oneWayThird] (goPythonRust ["jsonrpc"]) none {} =
        .ok (grpcBatch oneWayThird ["0->1", "1->0", "0->2"]
          ["current", "python_v10", "rust_v10"]) ∧
      selectRunnable (grpcBatch oneWayThird ["0->1", "1->0", "0->2"]
        ["current", "python_v10", "rust_v10"]).scenarios fourAgents = .ok selection ∧
      requestedAgents oneWayThird (goPythonRust ["jsonrpc"]) [.grpc] none =
        .ok ["current", "go_v03", "python_v10", "rust_v10"] ∧
      runTests r fourAgents (fun _ => .finished true) = .ok tests ∧
      ¬ ∀ t ∈ tests, AsWritten ["0->1", "1->0", "0->2"]
        ["current", "go_v03", "python_v10", "rust_v10"] r.sdks t := by
  have hmoved : ∀ es kept requested : List String, (∃ pairs, parseEdgeStrings es kept = .ok pairs ∧
      among ["current", "python_v10"] pairs =
        [("current", "python_v10"), ("python_v10", "current")]) → "0->1" ∈ es →
      kept[0]? = some "current" → kept[1]? = some "python_v10" →
      requested[1]? ≠ some "python_v10" →
      ¬ Undisturbed es requested kept ["current", "python_v10"] := by
    rintro es kept requested ⟨pairs, hpairs, hamong⟩ he hfst hsnd hother h
    have hbalanced : DegreeBalanced
        (among ["current", "python_v10"] pairs : Multiset (String × String)) := by
      rw [hamong]
      decide
    exact hother ((h pairs hpairs).2 hbalanced "0->1" he 0 1 (by decide) "current" hfst
      "python_v10" hsnd (by decide) (by decide)).2
  constructor
  · let s := explicitScenario firstPeerOnly ["0->1", "1->0"] ⟨.sendMessage, [.grpc], false⟩
      ["current", "python_v10"]
    let r : Runnable := ⟨s, ["current", "python_v10"], some ["0->1", "1->0"]⟩
    obtain ⟨tests, htests, hnot⟩ := not_asWritten_of_disturbed (r := r) rfl (by decide)
      (addressed_of_started (by decide)) (List.mem_singleton_self _)
      (hmoved ["0->1", "1->0"] ["current", "python_v10"] ["current", "go_v03", "python_v10"]
        ⟨[("current", "python_v10"), ("python_v10", "current")], by decide, by decide⟩
        (by decide) rfl rfl (by decide))
    exact ⟨{ runnable := [r] }, r, List.mem_singleton_self _, tests, rfl, rfl, rfl, rfl, rfl,
      htests, hnot⟩
  · let s := explicitScenario oneWayThird ["0->1", "1->0", "0->2"] ⟨.sendMessage, [.grpc], false⟩
      ["current", "python_v10", "rust_v10"]
    let r : Runnable := ⟨s, ["current", "python_v10", "rust_v10"], some ["0->1", "1->0", "0->2"]⟩
    obtain ⟨tests, htests, hnot⟩ := not_asWritten_of_disturbed (r := r) rfl (by decide)
      (addressed_of_started (by decide))
      (show ["current", "python_v10"] ∈ tested true ["current", "python_v10", "rust_v10"]
        by decide)
      (hmoved ["0->1", "1->0", "0->2"] ["current", "python_v10", "rust_v10"]
        ["current", "go_v03", "python_v10", "rust_v10"]
        ⟨[("current", "python_v10"), ("python_v10", "current"), ("current", "rust_v10")],
          by decide, by decide⟩ (by decide) rfl rfl (by decide))
    exact ⟨{ runnable := [r] }, r, List.mem_singleton_self _, tests, rfl, rfl, rfl, htests, hnot⟩

end Examples

end A2aItk.Execution
