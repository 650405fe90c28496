import A2aItk.Scenarios.Schema
import A2aItk.Traversal.AgentSemantics

/-!
# The coverage diff

`scripts/scenarios_diff.py` expands a scenario into the hops it exercises on its
own, away from the traversal. Both expansions are stated over a scenario, and
compared.
-/

namespace A2aItk.Scenarios

open Python
open Multigraph
open Traversal

/-- `l[i]`, where a negative index counts from the end. -/
def getItem {α : Type} (l : List α) (i : Int) : Except PyError α :=
  let index := if i < 0 then i + l.length else i
  if index < 0 then throw .indexError
  else match l[index.toNat]? with
    | some a => pure a
    | none => throw .indexError

/-- One hop over one transport. -/
structure Atom where
  caller : String
  callee : String
  transport : String
  behavior : String
  streaming : Bool
  deriving DecidableEq

/-- The agents of one index edge. -/
def edgePair (sdks : List String) (edge : String) : Except PyError (String × String) := do
  let (rawU, _, rawV) := Text.partition ['-', '>'] edge.toList
  let u ← parseInt (Text.strip rawU)
  let v ← parseInt (Text.strip rawV)
  let caller ← getItem sdks u
  let callee ← getItem sdks v
  pure (caller, callee)

def edgePairs (s : ResolvedScenario) : Except PyError (List (String × String)) :=
  match s.edges with
  | none => pure (s.sdks.flatMap fun u => (s.sdks.filter (u ≠ ·)).map fun v => (u, v))
  | some edges => edges.mapM (edgePair s.sdks)

/-- Every hop the scenario exercises, once per transport. -/
def atoms (s : ResolvedScenario) : Except PyError (List Atom) := do
  let pairs ← edgePairs s
  let transports := match s.protocols with
    | some (t :: ts) => t :: ts
    | _ => transportOrder
  pure (pairs.flatMap fun p => transports.map fun t =>
    { caller := p.1, callee := p.2, transport := t, behavior := s.behavior,
      streaming := s.streaming })

/-- The traversal of a scenario walks a hop over a transport, and so builds its
trace token. -/
def BuildsToken (s : ResolvedScenario) (u v t : String) : Prop :=
  t ∈ s.protocols.getD allTransports ∧
    ∃ root rest parsed circuits c, s.sdks = root :: rest ∧
      parseGivenEdges s.sdks s.edges = .ok parsed ∧
      eulerTraversalWithHierholzer root s.sdks parsed = .ok circuits ∧
      c ∈ circuits ∧ (u, v) ∈ hops c

/-- What a run of the scenario asks of every hop. -/
def ResolvedScenario.hopOptions (s : ResolvedScenario) (notificationServerUrl : String) :
    HopOptions where
  streaming := s.streaming
  behavior := s.behavior
  notificationServerUrl := notificationServerUrl

section Tokens

variable {s : ResolvedScenario} {agents : AgentTable} {options : HopOptions}
  {suite : Instruction × List String} {u v t : String}

/-- A suite that is built has circuits for every transport asked for. -/
theorem exists_circuits (ht : t ∈ s.protocols.getD allTransports)
    (h : createTestSuite s.sdks agents s.edges s.protocols options = .ok suite) :
    ∃ root rest parsed circuits, s.sdks = root :: rest ∧
      parseGivenEdges s.sdks s.edges = .ok parsed ∧
      eulerTraversalWithHierholzer root s.sdks parsed = .ok circuits ∧
      suite.2 = suiteTokens (s.protocols.getD allTransports) circuits := by
  obtain ⟨parsed, parts, hparsed, hparts, -⟩ := createTestSuite_eq_ok_iff.mp h
  cases hsdks : s.sdks with
  | nil =>
      obtain ⟨p, -, hp⟩ := exists_left_of_mem hparts.flip ht
      rw [hsdks] at hp
      cases hp
  | cons root rest =>
      rw [hsdks] at h hparsed
      obtain ⟨circuits, parts, heuler, hpartOf, rfl⟩ := createTestSuite_circuits hparsed h
      exact ⟨root, rest, parsed, circuits, rfl, hparsed, heuler (List.ne_nil_of_mem ht),
        tokens_of_partOf hpartOf⟩

theorem mem_circuitTokens {c : List String} {token : String} :
    token ∈ circuitTokens t c ↔ ∃ u v, (u, v) ∈ hops c ∧ token = traceToken u v t := by
  simp only [circuitTokens, List.mem_reverse, List.mem_map, Prod.exists, eq_comm]

/-- The expected tokens are the trace tokens of the hops built, and the end
tokens of the transports. -/
theorem mem_suite_tokens_iff {token : String}
    (h : createTestSuite s.sdks agents s.edges s.protocols options = .ok suite) :
    token ∈ suite.2 ↔
      (∃ u v t, BuildsToken s u v t ∧ token = traceToken u v t) ∨
      ∃ t ∈ s.protocols.getD allTransports, token = endToken t := by
  by_cases hts : s.protocols.getD allTransports = []
  · obtain ⟨parsed, parts, -, hparts, rfl⟩ := createTestSuite_eq_ok_iff.mp h
    rw [hts] at hparts
    cases hparts
    simp [BuildsToken, hts]
  · obtain ⟨t₀, ht₀⟩ := List.exists_mem_of_ne_nil _ hts
    obtain ⟨root, rest, parsed, circuits, hsdks, hparsed, heuler, htokens⟩ :=
      exists_circuits ht₀ h
    have hne := (eulerTraversal_spec heuler).ne_nil
    rw [htokens, suiteTokens, List.mem_flatMap]
    constructor
    · rintro ⟨⟨t, c⟩, hw, htoken⟩
      obtain ⟨ht, hc⟩ := mem_walks.mp hw
      obtain htoken | htoken := List.mem_append.mp htoken
      · obtain ⟨u, v, hhop, rfl⟩ := mem_circuitTokens.mp htoken
        exact Or.inl ⟨u, v, t, ⟨ht, root, rest, parsed, circuits, c, hsdks, hparsed, heuler, hc,
          hhop⟩, rfl⟩
      · exact Or.inr ⟨t, ht, List.mem_singleton.mp htoken⟩
    · rintro (⟨u, v, t, ⟨ht, root', rest', parsed', circuits', c, hsdks', hparsed', heuler', hc,
        hhop⟩, rfl⟩ | ⟨t, ht, rfl⟩)
      · obtain ⟨rfl, -⟩ := List.cons.inj (hsdks'.symm.trans hsdks)
        obtain rfl := Except.ok.inj (hparsed'.symm.trans hparsed)
        obtain rfl := Except.ok.inj (heuler'.symm.trans heuler)
        exact ⟨(t, c), mem_walks.mpr ⟨ht, hc⟩,
          List.mem_append_left _ (mem_circuitTokens.mpr ⟨u, v, hhop, rfl⟩)⟩
      · obtain ⟨c, hc⟩ := List.exists_mem_of_ne_nil _ hne
        exact ⟨(t, c), mem_walks.mpr ⟨ht, hc⟩, by simp⟩

/-- A token is built for exactly the traversed edges, over every transport. -/
theorem buildsToken_iff
    (h : createTestSuite s.sdks agents s.edges s.protocols options = .ok suite) :
    BuildsToken s u v t ↔ t ∈ s.protocols.getD allTransports ∧
      ∃ parsed, parseGivenEdges s.sdks s.edges = .ok parsed ∧
        (u, v) ∈ targetEdges s.sdks parsed := by
  constructor
  · rintro ⟨ht, root, rest, parsed, circuits, c, hsdks, hparsed, heuler, hc, hhop⟩
    refine ⟨ht, parsed, hparsed, ?_⟩
    exact (eulerTraversal_spec heuler).mem_edges_iff.mpr ⟨c, hc, hhop⟩
  · rintro ⟨ht, parsed, hparsed, hedge⟩
    obtain ⟨root, rest, parsed', circuits, hsdks, hparsed', heuler, -⟩ := exists_circuits ht h
    obtain rfl := Except.ok.inj (hparsed.symm.trans hparsed')
    obtain ⟨c, hc, hhop⟩ := (eulerTraversal_spec heuler).mem_edges_iff.mp hedge
    exact ⟨ht, root, rest, parsed, circuits, c, hsdks, hparsed, heuler, hc, hhop⟩

end Tokens

section Atoms

variable {s : ResolvedScenario} {found : List Atom} {sdks : List String}

theorem getItem_natCast {α : Type} {l : List α} {i : Nat} {a : α} (h : l[i]? = some a) :
    getItem l (i : Int) = .ok a := by
  have hneg : ¬ (i : Int) < 0 := by omega
  simp [getItem, hneg, h]

/-- The diff reads an edge the traversal accepts as the traversal does. -/
theorem edgePair_of_spells {edge : String} {pair : String × String}
    (h : Spells sdks edge pair) : edgePair sdks edge = .ok pair := by
  obtain ⟨u, v, hread, hu, hv, rfl⟩ := h
  obtain ⟨a, b, hsplit, -, -, ha, hb⟩ := readIndices_eq_ok_iff.mp hread
  have hpart := Text.partition_of_split_eq_pair (by simp) hsplit
  have hget : ∀ i, i < sdks.length → sdks[i]? = some (sdks.getD i "") := by
    intro i hi
    rw [List.getD_eq_getElem?_getD, List.getElem?_eq_getElem hi]
    rfl
  simp only [edgePair, hpart, ha, hb, ok_bind, getItem_natCast (hget u hu),
    getItem_natCast (hget v hv), pure_eq_ok]

theorem edgePairs_of_parse {edges : List String} {pairs : List (String × String)}
    (h : parseEdgeStrings edges sdks = .ok pairs) :
    edges.mapM (edgePair sdks) = .ok pairs :=
  mapM_eq_ok_iff.mpr ((parseEdgeStrings_eq_ok_iff.mp h).imp fun _ _ => edgePair_of_spells)

/-- The diff's transports: an empty list counts as none given. -/
def diffTransports (s : ResolvedScenario) : List String :=
  match s.protocols with
  | some (t :: ts) => t :: ts
  | _ => transportOrder

theorem mem_atoms_iff (h : atoms s = .ok found) (a : Atom) :
    a ∈ found ↔ a.behavior = s.behavior ∧ a.streaming = s.streaming ∧
      a.transport ∈ diffTransports s ∧
      ∃ pairs, edgePairs s = .ok pairs ∧ (a.caller, a.callee) ∈ pairs := by
  obtain ⟨pairs, hpairs, hfound⟩ := bind_eq_ok_iff.mp h
  obtain rfl := Except.ok.inj hfound
  simp only [List.mem_flatMap, List.mem_map]
  constructor
  · rintro ⟨p, hp, t, ht, rfl⟩
    exact ⟨rfl, rfl, ht, pairs, hpairs, hp⟩
  · rintro ⟨hb, hs, ht, pairs', hpairs', hp⟩
    obtain rfl := Except.ok.inj (hpairs.symm.trans hpairs')
    exact ⟨_, hp, a.transport, ht, by rw [← hb, ← hs]⟩

/-- The pairs the diff sees and the pairs the traversal walks, where neither
side raises: the same unless the edges are an empty list. -/
theorem edgePairs_spec {parsed : Option (List (String × String))}
    {pairs : List (String × String)} (hparsed : parseGivenEdges s.sdks s.edges = .ok parsed)
    (hpairs : edgePairs s = .ok pairs) :
    (s.edges = some [] ∧ pairs = [] ∧
      targetEdges s.sdks parsed = targetEdges s.sdks none) ∨
    (s.edges ≠ some [] ∧ targetEdges s.sdks parsed = pairs) := by
  unfold edgePairs at hpairs
  cases hedges : s.edges with
  | none =>
      right
      rw [hedges] at hparsed hpairs
      obtain rfl := Except.ok.inj hparsed
      obtain rfl := Except.ok.inj hpairs
      exact ⟨by simp, rfl⟩
  | some es =>
      rw [hedges] at hparsed hpairs
      cases es with
      | nil =>
          left
          obtain rfl := Except.ok.inj hparsed
          obtain rfl := Except.ok.inj hpairs
          exact ⟨rfl, rfl, rfl⟩
      | cons e es =>
          right
          obtain ⟨given, hgiven, rfl⟩ := map_eq_ok_iff.mp hparsed
          have hsame := edgePairs_of_parse hgiven
          obtain rfl := Except.ok.inj (hsame.symm.trans hpairs)
          exact ⟨by simp, targetEdges_of_parsed (by simp) hgiven⟩

/-- Only a scenario without written edges over a single agent has no hop. -/
theorem targetEdges_eq_nil_iff {parsed : Option (List (String × String))}
    (hparsed : parseGivenEdges s.sdks s.edges = .ok parsed) :
    targetEdges s.sdks parsed = [] ↔
      s.edges.getD [] = [] ∧ ∀ u ∈ s.sdks, ∀ v ∈ s.sdks, u = v := by
  rw [← targetEdges_none_eq_nil_iff]
  cases hedges : s.edges with
  | none =>
      rw [hedges] at hparsed
      obtain rfl := Except.ok.inj hparsed
      simp
  | some es =>
      rw [hedges] at hparsed
      cases es with
      | nil =>
          obtain rfl := Except.ok.inj hparsed
          simp
      | cons e es =>
          obtain ⟨given, hgiven, rfl⟩ := map_eq_ok_iff.mp hparsed
          rw [targetEdges_of_parsed (by simp) hgiven]
          cases parseEdgeStrings_eq_ok_iff.mp hgiven with
          | cons _ _ => simp

theorem diffTransports_cases (s : ResolvedScenario) :
    (s.protocols = some [] ∧ diffTransports s = transportOrder) ∨
    (s.protocols ≠ some [] ∧ diffTransports s = s.protocols.getD allTransports) := by
  unfold diffTransports
  rcases s.protocols with _ | ⟨_ | ⟨t, ts⟩⟩
  · exact Or.inr ⟨by simp, rfl⟩
  · exact Or.inl ⟨rfl, rfl⟩
  · exact Or.inr ⟨by simp, rfl⟩

theorem getD_allTransports_eq_nil_iff {protocols : Option (List String)} :
    protocols.getD allTransports = [] ↔ protocols = some [] := by
  cases protocols with
  | none => simp [allTransports]
  | some ts => simp

end Atoms

section Agreement

variable {s : ResolvedScenario} {agents : AgentTable} {url : String}
  {suite : Instruction × List String} {found : List Atom}

/-- The diff sees the hops the traversal builds tokens for exactly when an empty
edge list comes with an empty transport list, or with agents that have no hops
to make anyway. -/
theorem atoms_agree_iff (hatoms : atoms s = .ok found)
    (hsuite : createTestSuite s.sdks agents s.edges s.protocols (s.hopOptions url) =
      .ok suite) :
    (∀ a, a ∈ found ↔ a.behavior = s.behavior ∧ a.streaming = s.streaming ∧
        BuildsToken s a.caller a.callee a.transport) ↔
      (s.edges = some [] ↔ s.protocols = some []) ∨
      (s.edges.getD [] = [] ∧ ∀ u ∈ s.sdks, ∀ v ∈ s.sdks, u = v) := by
  obtain ⟨pairs, hpairs, -⟩ := bind_eq_ok_iff.mp hatoms
  obtain ⟨parsed, -, hparsed, -, -⟩ := createTestSuite_eq_ok_iff.mp hsuite
  have hsides : (∀ a, a ∈ found ↔ a.behavior = s.behavior ∧ a.streaming = s.streaming ∧
      BuildsToken s a.caller a.callee a.transport) ↔
        ∀ u v t, (t ∈ diffTransports s ∧ (u, v) ∈ pairs) ↔
          (t ∈ s.protocols.getD allTransports ∧ (u, v) ∈ targetEdges s.sdks parsed) := by
    have hleft := mem_atoms_iff hatoms
    have hright := fun u v t => @buildsToken_iff s _ _ suite u v t hsuite
    simp only [hleft, hright, hpairs, hparsed, Except.ok.injEq, exists_eq_left']
    constructor
    · intro h u v t
      simpa using h ⟨u, v, t, s.behavior, s.streaming⟩
    · intro h a
      rw [h a.caller a.callee a.transport]
  rw [hsides, ← targetEdges_eq_nil_iff hparsed]
  obtain ⟨hempty, rfl, -⟩ | ⟨hgiven, htarget⟩ := edgePairs_spec hparsed hpairs
  · -- the diff sees no hop at all
    rw [iff_true_left hempty, ← getD_allTransports_eq_nil_iff]
    constructor
    · intro h
      by_contra hnot
      obtain ⟨hts, htarget⟩ := not_or.mp hnot
      obtain ⟨t, ht⟩ := List.exists_mem_of_ne_nil _ hts
      obtain ⟨e, he⟩ := List.exists_mem_of_ne_nil _ htarget
      exact absurd ((h e.1 e.2 t).mpr ⟨ht, he⟩).2 (by simp)
    · rintro (hts | htarget) u v t
      · simp [hts]
      · simp [htarget]
  · rw [htarget, iff_false_left hgiven]
    obtain ⟨hprotocols, hdiff⟩ | ⟨hprotocols, hdiff⟩ := diffTransports_cases s
    · -- the traversal is asked for no transport
      have hts : s.protocols.getD allTransports = [] :=
        getD_allTransports_eq_nil_iff.mpr hprotocols
      rw [hdiff, hts]
      constructor
      · intro h
        refine Or.inr (List.eq_nil_iff_forall_not_mem.mpr fun e he => ?_)
        exact absurd ((h e.1 e.2 "jsonrpc").mp ⟨by decide, he⟩).1 (by simp)
      · rintro (hnot | hnil) u v t
        · exact absurd hprotocols hnot
        · simp [hnil]
    · rw [hdiff]
      exact iff_of_true (fun _ _ _ => Iff.rfl) (Or.inl hprotocols)

def pairScenario (edges : Option (List String)) : ResolvedScenario where
  name := "pair"
  sdks := ["a", "b"]
  behavior := "send_message"
  edges := edges
  protocols := some ["grpc"]

def pairAgents : AgentTable := ⟨[("a", ⟨1⟩), ("b", ⟨2⟩)]⟩

theorem atoms_agree_pair :
    ∃ found suite, atoms (pairScenario (some ["0->1", "1->0"])) = .ok found ∧
      createTestSuite ["a", "b"] pairAgents (some ["0->1", "1->0"]) (some ["grpc"])
        ((pairScenario (some ["0->1", "1->0"])).hopOptions "") = .ok suite ∧
      ((∀ a, a ∈ found ↔ a.behavior = "send_message" ∧ a.streaming = false ∧
          BuildsToken (pairScenario (some ["0->1", "1->0"])) a.caller a.callee a.transport) ↔
        (some ["0->1", "1->0"] = some ([] : List String) ↔ some ["grpc"] = some []) ∨
        ((some ["0->1", "1->0"]).getD [] = [] ∧ ∀ u ∈ ["a", "b"], ∀ v ∈ ["a", "b"], u = v)) := by
  refine ⟨_, _, rfl, rfl, ?_⟩
  exact @atoms_agree_iff (pairScenario (some ["0->1", "1->0"])) pairAgents "" _ _ rfl rfl

/-- An empty edge list: the diff sees nothing where the traversal makes hops. -/
theorem atoms_empty_edges_disagree :
    ∃ found suite, atoms (pairScenario (some [])) = .ok found ∧
      createTestSuite ["a", "b"] pairAgents (some []) (some ["grpc"])
        ((pairScenario (some [])).hopOptions "") = .ok suite ∧
      ¬ ∀ a, a ∈ found ↔ a.behavior = "send_message" ∧ a.streaming = false ∧
        BuildsToken (pairScenario (some [])) a.caller a.callee a.transport := by
  refine ⟨[], _, rfl, rfl, fun h => ?_⟩
  have hbuilds : BuildsToken (pairScenario (some [])) "a" "b" "grpc" :=
    ⟨by decide, "a", ["b"], none, [["a", "b", "a"]], ["a", "b", "a"], rfl, rfl, by decide,
      by simp, by simp⟩
  exact absurd ((h ⟨"a", "b", "grpc", "send_message", false⟩).mpr ⟨rfl, rfl, hbuilds⟩) (by simp)

end Agreement

end A2aItk.Scenarios
