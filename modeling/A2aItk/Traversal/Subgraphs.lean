import A2aItk.Traversal.AgentSemantics

/-!
# Induced subgraphs as subtests

`_get_valid_subgraphs` tries every selection of agents that keeps the first
one, remaps the edges among them, and keeps what a test suite can be built for.
-/

namespace A2aItk.Traversal

open Python
open Multigraph

section Combinations

variable {α : Type*}

/-- `itertools.combinations(l, r)`, in its order. -/
def combinations : Nat → List α → List (List α)
  | 0, _ => [[]]
  | _ + 1, [] => []
  | r + 1, a :: l => (combinations r l).map (a :: ·) ++ combinations (r + 1) l

theorem mem_combinations {r : Nat} {l c : List α} :
    c ∈ combinations r l ↔ c.Sublist l ∧ c.length = r := by
  induction l generalizing r c with
  | nil =>
      cases r with
      | zero =>
          simp only [combinations, List.mem_singleton, List.sublist_nil]
          exact ⟨fun h => ⟨h, by simp [h]⟩, fun h => h.1⟩
      | succ r =>
          simp only [combinations, List.not_mem_nil, List.sublist_nil, false_iff, not_and]
          rintro rfl
          simp
  | cons a l ih =>
      cases r with
      | zero =>
          simp only [combinations, List.mem_singleton, List.length_eq_zero_iff]
          exact ⟨fun h => ⟨by simp [h], h⟩, fun h => h.2⟩
      | succ r =>
          simp only [combinations, List.mem_append, List.mem_map, ih]
          constructor
          · rintro (⟨d, ⟨hd, hlen⟩, rfl⟩ | ⟨hc, hlen⟩)
            · exact ⟨hd.cons_cons a, by simp [hlen]⟩
            · exact ⟨hc.cons a, hlen⟩
          · rintro ⟨hc, hlen⟩
            cases hc with
            | cons _ h => exact Or.inr ⟨h, hlen⟩
            | cons_cons _ h => exact Or.inl ⟨_, ⟨h, by simpa using hlen⟩, rfl⟩

end Combinations

/-- The dict from names to positions: a repeated name keeps its last one. -/
def nameToNewIdx (subSdks : List String) : String → Option Nat :=
  subSdks.zipIdx.foldl (fun index p => Function.update index p.1 (some p.2)) fun _ => none

def mapEdgeToSubgraph (originalSdks subSdks : List String) (edgeStr : String) :
    Except PyError (List String) := do
  let (u, v) ← readEdge originalSdks.length s!"Invalid edge index: {edgeStr}" edgeStr
  match nameToNewIdx subSdks (originalSdks.getD u ""),
      nameToNewIdx subSdks (originalSdks.getD v "") with
  | some newU, some newV => pure [printEdge newU newV]
  | _, _ => pure []

def mapEdgesToSubgraph (originalEdges originalSdks subSdks : List String) :
    Except PyError (List String) :=
  List.flatten <$> originalEdges.mapM (mapEdgeToSubgraph originalSdks subSdks)

structure Subgraph where
  sdks : List String
  edges : Option (List String)

def newEdges (sdks subSdks : List String) :
    Option (List String) → Except PyError (Option (List String))
  | none => pure none
  | some edges => some <$> mapEdgesToSubgraph edges sdks subSdks

/-- One turn of the loop: `none` is a `continue`. -/
def trySubgraph (sdks : List String) (agents : AgentTable)
    (edges protocols : Option (List String)) (options : HopOptions) (subSdks : List String) :
    Except PyError (Option Subgraph) := do
  if subSdks.length < 2 then return none
  let some mapped ← catchValueError (newEdges sdks subSdks edges) | return none
  let some _ ← catchValueError (createTestSuite subSdks agents mapped protocols options)
    | return none
  return some ⟨subSdks, mapped⟩

def selections : List String → List (List String)
  | [] => []
  | root :: remaining =>
      (List.range (remaining.length + 1)).flatMap fun r =>
        (combinations r remaining).map (root :: ·)

def getValidSubgraphs (sdks : List String) (edges : Option (List String)) (behavior : String)
    (agents : AgentTable) (protocols : Option (List String)) (streaming : Bool) :
    Except PyError (List Subgraph) := do
  let found ← (selections sdks).mapM
    (trySubgraph sdks agents edges protocols { streaming, behavior })
  return found.reduceOption

section Remapping

variable {sdks sub : List String}

theorem nameToNewIdx_foldl (name : String) (l : List String) (start : Nat)
    (index : String → Option Nat) :
    (l.zipIdx start).foldl (fun (index : String → Option Nat) p =>
        Function.update index p.1 (some p.2)) index name = index name ∧ name ∉ l ∨
    ∃ i, (l.zipIdx start).foldl (fun (index : String → Option Nat) p =>
        Function.update index p.1 (some p.2)) index name = some (start + i) ∧
      l[i]? = some name := by
  induction l generalizing start index with
  | nil => exact Or.inl ⟨rfl, by simp⟩
  | cons a rest ih =>
      rw [List.zipIdx_cons, List.foldl_cons]
      obtain ⟨heq, hnot⟩ | ⟨i, heq, hi⟩ := ih (start + 1) (Function.update index a (some start))
      · by_cases ha : a = name
        · subst ha
          right
          exact ⟨0, by rw [heq, Function.update_self, Nat.add_zero], rfl⟩
        · left
          rw [heq, Function.update_of_ne (Ne.symm ha)]
          exact ⟨rfl, by simp [Ne.symm ha, hnot]⟩
      · right
        exact ⟨i + 1, by rw [heq, Nat.add_assoc, Nat.add_comm 1 i], by simpa using hi⟩

/-- The remapped position of a name is one of its positions. -/
theorem nameToNewIdx_cases (sub : List String) (name : String) :
    nameToNewIdx sub name = none ∧ name ∉ sub ∨
      ∃ i, nameToNewIdx sub name = some i ∧ sub[i]? = some name := by
  obtain h | ⟨i, h, hi⟩ := nameToNewIdx_foldl name sub 0 fun _ => none
  · exact Or.inl h
  · exact Or.inr ⟨i, by rw [nameToNewIdx, h, Nat.zero_add], hi⟩

/-- The edges of a graph that stay among some agents. -/
def among (sub : List String) (pairs : List (String × String)) : List (String × String) :=
  pairs.filter fun p => p.1 ∈ sub && p.2 ∈ sub

theorem spells_printEdge {i j : Nat} {u v : String} (hi : sub[i]? = some u)
    (hj : sub[j]? = some v) : Spells sub (printEdge i j) (u, v) := by
  obtain ⟨hilt, rfl⟩ := List.getElem?_eq_some_iff.mp hi
  obtain ⟨hjlt, rfl⟩ := List.getElem?_eq_some_iff.mp hj
  refine ⟨i, j, readIndices_printEdge i j, hilt, hjlt, ?_⟩
  rw [List.getD_eq_getElem?_getD, List.getD_eq_getElem?_getD, hi, hj]
  rfl

/-- One edge is remapped to itself, or dropped where it leaves the selection. -/
theorem mapEdgeToSubgraph_of_spells {edgeStr : String} {pair : String × String}
    (sub : List String) (h : Spells sdks edgeStr pair) :
    ∃ mapped, mapEdgeToSubgraph sdks sub edgeStr = .ok mapped ∧
      List.Forall₂ (Spells sub) mapped (among sub [pair]) := by
  obtain ⟨u, v, hread, hu, hv, rfl⟩ := h
  rw [mapEdgeToSubgraph, readEdge_eq_ok_iff.mpr ⟨hread, hu, hv⟩, ok_bind]
  dsimp only
  generalize sdks.getD u "" = a
  generalize sdks.getD v "" = b
  obtain ⟨hnone, hout⟩ | ⟨i, hi, hai⟩ := nameToNewIdx_cases sub a
  · exact ⟨[], by rw [hnone]; rfl, by simp [among, hout]⟩
  · obtain ⟨hnone, hout⟩ | ⟨j, hj, hbj⟩ := nameToNewIdx_cases sub b
    · exact ⟨[], by rw [hi, hnone]; rfl, by simp [among, hout]⟩
    · refine ⟨[printEdge i j], by rw [hi, hj]; rfl, ?_⟩
      have hkeep : among sub [(a, b)] = [(a, b)] := by
        simp [among, List.mem_of_getElem? hai, List.mem_of_getElem? hbj]
      rw [hkeep]
      exact .cons (spells_printEdge hai hbj) .nil

theorem mapEdgeToSubgraph_raisesOnly (sdks sub : List String) (edgeStr : String) :
    RaisesOnly (fun e => e.isValueError = true) (mapEdgeToSubgraph sdks sub edgeStr) := by
  apply (readEdge_raisesOnly _ _ edgeStr).bind
  intro ⟨u, v⟩ _
  dsimp only
  split
  · exact RaisesOnly.ok _ _
  · exact RaisesOnly.ok _ _

theorem spells_of_mapEdgeToSubgraph {edgeStr : String} {mapped : List String}
    (h : mapEdgeToSubgraph sdks sub edgeStr = .ok mapped) :
    ∃ pair, Spells sdks edgeStr pair := by
  obtain ⟨⟨u, v⟩, hread, -⟩ := bind_eq_ok_iff.mp h
  obtain ⟨hidx, hu, hv⟩ := readEdge_eq_ok_iff.mp hread
  exact ⟨_, u, v, hidx, hu, hv, rfl⟩

/-- Remapped edges spell, over the selection, the edges that stay in it. -/
theorem mapEdgesToSubgraph_of_parse {edges : List String} {pairs : List (String × String)}
    (sub : List String) (h : parseEdgeStrings edges sdks = .ok pairs) :
    ∃ mapped, mapEdgesToSubgraph edges sdks sub = .ok mapped ∧
      parseEdgeStrings mapped sub = .ok (among sub pairs) := by
  rw [parseEdgeStrings_eq_ok_iff] at h
  suffices ∃ parts, List.Forall₂ (fun e p => mapEdgeToSubgraph sdks sub e = .ok p) edges parts ∧
      List.Forall₂ (Spells sub) parts.flatten (among sub pairs) by
    obtain ⟨parts, hparts, hspells⟩ := this
    refine ⟨parts.flatten, ?_, parseEdgeStrings_eq_ok_iff.mpr hspells⟩
    rw [mapEdgesToSubgraph, mapM_eq_ok_iff.mpr hparts]
    rfl
  induction h with
  | nil => exact ⟨[], .nil, .nil⟩
  | @cons e pair es ps hspells _ ih =>
      obtain ⟨parts, hparts, hrest⟩ := ih
      obtain ⟨mapped, hmapped, hhead⟩ := mapEdgeToSubgraph_of_spells sub hspells
      refine ⟨mapped :: parts, .cons hmapped hparts, ?_⟩
      have hsplit : among sub (pair :: ps) = among sub [pair] ++ among sub ps := by
        rw [among, among, among, ← List.filter_append]
        rfl
      rw [hsplit, List.flatten_cons]
      exact List.rel_append hhead hrest

theorem mapEdgesToSubgraph_raisesOnly (edges sdks sub : List String) :
    RaisesOnly (fun e => e.isValueError = true) (mapEdgesToSubgraph edges sdks sub) := by
  apply RaisesOnly.map
  exact RaisesOnly.mapM fun edgeStr _ => mapEdgeToSubgraph_raisesOnly sdks sub edgeStr

/-- Edges that remap are edges that parse. -/
theorem parse_of_mapEdgesToSubgraph {edges mapped : List String}
    (h : mapEdgesToSubgraph edges sdks sub = .ok mapped) :
    ∃ pairs, parseEdgeStrings edges sdks = .ok pairs := by
  obtain ⟨parts, hparts, -⟩ := map_eq_ok_iff.mp h
  have hall : ∀ e ∈ edges, ∃ pair, Spells sdks e pair := by
    intro e he
    obtain ⟨p, -, hp⟩ := exists_left_of_mem (mapM_eq_ok_iff.mp hparts).flip he
    exact spells_of_mapEdgeToSubgraph hp
  obtain ⟨pairs, hpairs⟩ := exists_forall₂ hall
  exact ⟨pairs, parseEdgeStrings_eq_ok_iff.mpr hpairs⟩

end Remapping

section Induced

variable {sdks sub : List String} {edges : Option (List String)}
  {own : Option (List (String × String))}

/-- The edges a scenario states; `none` is the complete digraph. -/
def ownEdges (sdks : List String) :
    Option (List String) → Except PyError (Option (List (String × String)))
  | none => pure none
  | some edges => some <$> parseEdgeStrings edges sdks

/-- The edges a scenario has among some of its agents. -/
def inducedEdges (own : Option (List (String × String))) (sub : List String) :
    List (String × String) :=
  match own with
  | none => targetEdges sub none
  | some pairs => among sub pairs

/-- A selection is traversed over its induced edges, or over the complete digraph
where it has none. -/
theorem newEdges_of_ownEdges (sub : List String) (h : ownEdges sdks edges = .ok own) :
    ∃ mapped parsed, newEdges sdks sub edges = .ok mapped ∧
      parseGivenEdges sub mapped = .ok parsed ∧
      targetEdges sub parsed =
        if inducedEdges own sub = [] then targetEdges sub none else inducedEdges own sub := by
  cases edges with
  | none =>
      obtain rfl := Except.ok.inj h
      exact ⟨none, none, rfl, rfl, (ite_self _).symm⟩
  | some es =>
      obtain ⟨pairs, hpairs, rfl⟩ := map_eq_ok_iff.mp h
      obtain ⟨mapped, hmapped, hparse⟩ := mapEdgesToSubgraph_of_parse sub hpairs
      have hforall := parseEdgeStrings_eq_ok_iff.mp hparse
      cases mapped with
      | nil =>
          have hnil : among sub pairs = [] := List.forall₂_nil_left_iff.mp hforall
          exact ⟨some [], none, by rw [newEdges, hmapped]; rfl, rfl, by simp [inducedEdges, hnil]⟩
      | cons m ms =>
          have hne : among sub pairs ≠ [] := by
            intro hnil
            rw [hnil] at hforall
            cases hforall
          refine ⟨some (m :: ms), some (among sub pairs), by rw [newEdges, hmapped]; rfl, ?_, ?_⟩
          · rw [parseGivenEdges, hparse]
            rfl
          · rw [inducedEdges, if_neg hne]
            obtain ⟨e, es', hcons⟩ := List.exists_cons_of_ne_nil hne
            rw [hcons, targetEdges, ← hcons, List.filter_eq_self]
            intro p hp
            exact (List.mem_filter.mp hp).2

theorem catch_newEdges_of_error {e : PyError} (h : ownEdges sdks edges = .error e) :
    catchValueError (newEdges sdks sub edges) = .ok none := by
  cases edges with
  | none => cases h
  | some es =>
      cases hmap : mapEdgesToSubgraph es sdks sub with
      | error e' =>
          rw [newEdges, hmap]
          exact catchValueError_error (mapEdgesToSubgraph_raisesOnly es sdks sub e' hmap)
      | ok mapped =>
          obtain ⟨pairs, hpairs⟩ := parse_of_mapEdgesToSubgraph hmap
          rw [ownEdges, hpairs] at h
          cases h

end Induced

section Selections

variable {sdks sub : List String}

/-- The selections the enumeration tries: the first agent and any of the rest. -/
theorem mem_selections {root : String} {remaining : List String} :
    sub ∈ selections (root :: remaining) ↔
      ∃ combo, sub = root :: combo ∧ combo.Sublist remaining := by
  simp only [selections, List.mem_flatMap, List.mem_range, List.mem_map, mem_combinations]
  constructor
  · rintro ⟨r, -, combo, ⟨hsub, -⟩, rfl⟩
    exact ⟨combo, rfl, hsub⟩
  · rintro ⟨combo, rfl, hsub⟩
    exact ⟨combo.length, Nat.lt_succ_of_le hsub.length_le, combo, ⟨hsub, rfl⟩, rfl⟩

/-- The selections that could be a subgraph at all. -/
def candidates (sdks : List String) : List (List String) :=
  (selections sdks).filter fun sub => 2 ≤ sub.length

end Selections

section Soundness

variable {listens : String → Option String} {agents : AgentTable}
  {edges protocols : Option (List String)} {own : Option (List (String × String))}
  {root : String} {remaining sub : List String}

/-- What one selection is traversed over. -/
def traversedEdges (own : Option (List (String × String))) (sub : List String) :
    List (String × String) :=
  if inducedEdges own sub = [] then targetEdges sub none else inducedEdges own sub

/-- A selection is kept when a suite can be built over what it is traversed over. -/
theorem trySubgraph_spec (protocols : Option (List String)) (options : HopOptions)
    (h : ownEdges (root :: remaining) edges = .ok own)
    (haddr : Addressed agents (root :: remaining))
    (hsub : sub ∈ selections (root :: remaining)) :
    ∃ mapped parsed, newEdges (root :: remaining) sub edges = .ok mapped ∧
      parseGivenEdges sub mapped = .ok parsed ∧
      targetEdges sub parsed = traversedEdges own sub ∧
      trySubgraph (root :: remaining) agents edges protocols options sub =
        .ok (if 2 ≤ sub.length ∧ (protocols.getD allTransports = [] ∨
            DegreeBalanced (traversedEdges own sub : Multiset (String × String)))
          then some ⟨sub, mapped⟩ else none) := by
  obtain ⟨mapped, parsed, hmapped, hparsed, htarget⟩ := newEdges_of_ownEdges sub h
  obtain ⟨combo, rfl, hcombo⟩ := mem_selections.mp hsub
  have haddr' : Addressed agents (root :: combo) :=
    fun s hs => haddr s ((hcombo.cons_cons root).subset hs)
  refine ⟨mapped, parsed, hmapped, hparsed, htarget, ?_⟩
  rw [trySubgraph]
  by_cases hlen : (root :: combo).length < 2
  · rw [if_pos hlen, if_neg (by omega)]
    rfl
  · rw [if_neg hlen]
    obtain ⟨parsed', hparsed', hok, suite, hsuite⟩ | ⟨hnot, e, he, hve⟩ :=
      createTestSuite_cases options haddr' mapped protocols
    · obtain rfl := Except.ok.inj (hparsed.symm.trans hparsed')
      rw [htarget] at hok
      rw [if_pos ⟨by omega, hok⟩]
      simp [hmapped, hsuite]
    · have hcond := hnot parsed hparsed
      rw [htarget] at hcond
      rw [if_neg (by rintro ⟨-, hor⟩; exact hor.elim hcond.1 hcond.2)]
      simp [hmapped, he, catchValueError_error hve]

/-- The result of the loop: what each turn that did not `continue` found. -/
theorem getValidSubgraphs_spec (protocols : Option (List String)) (behavior : String)
    (streaming : Bool)
    (h : ownEdges (root :: remaining) edges = .ok own)
    (haddr : Addressed agents (root :: remaining)) :
    ∃ subs, getValidSubgraphs (root :: remaining) edges behavior agents protocols streaming =
        .ok subs ∧
      subs.map Subgraph.sdks = (candidates (root :: remaining)).filter (fun sub =>
        protocols.getD allTransports = [] ∨
          DegreeBalanced (traversedEdges own sub : Multiset (String × String))) ∧
      ∀ s ∈ subs, s.sdks ∈ candidates (root :: remaining) ∧ ∃ parsed,
        parseGivenEdges s.sdks s.edges = .ok parsed ∧
        targetEdges s.sdks parsed = traversedEdges own s.sdks := by
  have hturn := fun sub (hsub : sub ∈ selections (root :: remaining)) =>
    trySubgraph_spec protocols { streaming, behavior } h haddr hsub
  rw [getValidSubgraphs]
  unfold candidates
  generalize selections (root :: remaining) = subs at hturn ⊢
  induction subs with
  | nil => exact ⟨[], rfl, rfl, by simp⟩
  | cons sub rest ih =>
      obtain ⟨found, hfound, hsdks, hall⟩ := ih fun s hs => hturn s (List.mem_cons_of_mem _ hs)
      obtain ⟨found', hfound', hpure⟩ := bind_eq_ok_iff.mp hfound
      obtain rfl := Except.ok.inj hpure
      obtain ⟨mapped, parsed, -, hparsed, htarget, htry⟩ := hturn sub (by simp)
      rw [List.mapM_cons, htry, ok_bind, hfound', ok_bind]
      by_cases hkeep : 2 ≤ sub.length ∧ (protocols.getD allTransports = [] ∨
          DegreeBalanced (traversedEdges own sub : Multiset (String × String)))
      · rw [if_pos hkeep]
        refine ⟨⟨sub, mapped⟩ :: found'.reduceOption, rfl, ?_, ?_⟩
        · rw [List.map_cons, hsdks, List.filter_cons_of_pos (by simpa using hkeep.1),
            List.filter_cons_of_pos (by simpa using hkeep.2)]
        · intro s hs
          cases List.mem_cons.mp hs with
          | inl h =>
              subst h
              exact ⟨List.mem_filter.mpr ⟨by simp, by simpa using hkeep.1⟩,
                parsed, hparsed, htarget⟩
          | inr h =>
              obtain ⟨hin, hrest⟩ := hall s h
              obtain ⟨hin, hlen⟩ := List.mem_filter.mp hin
              exact ⟨List.mem_filter.mpr ⟨by simp [hin], hlen⟩, hrest⟩
      · rw [if_neg hkeep]
        refine ⟨found'.reduceOption, rfl, ?_, ?_⟩
        · rw [hsdks]
          by_cases hlen : 2 ≤ sub.length
          · rw [List.filter_cons_of_pos (by simpa using hlen), List.filter_cons_of_neg
              (by simpa using fun h => hkeep ⟨hlen, h⟩)]
          · rw [List.filter_cons_of_neg (by simpa using hlen)]
        · intro s hs
          obtain ⟨hin, hrest⟩ := hall s hs
          obtain ⟨hin, hlen⟩ := List.mem_filter.mp hin
          exact ⟨List.mem_filter.mpr ⟨by simp [hin], hlen⟩, hrest⟩

/-- The hops a scenario states. -/
def statedEdges (own : Option (List (String × String))) (sdks : List String) :
    List (String × String) :=
  own.getD (targetEdges sdks none)

theorem mem_inducedEdges {sdks : List String} (hsub : ∀ s ∈ sub, s ∈ sdks)
    {u v : String} :
    (u, v) ∈ inducedEdges own sub ↔ (u, v) ∈ statedEdges own sdks ∧ u ∈ sub ∧ v ∈ sub := by
  cases own with
  | none =>
      simp only [inducedEdges, statedEdges, Option.getD_none, mem_targetEdges_none]
      constructor
      · rintro ⟨hu, hv, hne⟩
        exact ⟨⟨hsub u hu, hsub v hv, hne⟩, hu, hv⟩
      · rintro ⟨⟨-, -, hne⟩, hu, hv⟩
        exact ⟨hu, hv, hne⟩
  | some pairs => simp [inducedEdges, statedEdges, among]

/-- The subgraphs found are the induced ones that can be walked, each with the
circuits of its own edges, and running one makes hops of the scenario only. -/
structure SoundSubgraphs (listens : String → Option String) (agents : AgentTable)
    (sdks : List String) (own : Option (List (String × String)))
    (protocols : Option (List String)) (subs : List Subgraph) : Prop where
  exact : subs.map Subgraph.sdks = (candidates sdks).filter fun sub =>
    inducedEdges own sub ≠ [] ∧ DegreeBalanced (inducedEdges own sub : Multiset (String × String))
  circuits : ∀ s ∈ subs, ∀ options, ∃ suite circuits,
    createTestSuite s.sdks agents s.edges protocols options = .ok suite ∧
    suite.2 = suiteTokens (protocols.getD allTransports) circuits ∧
    (protocols.getD allTransports ≠ [] → EulerCircuits
      (inducedEdges own s.sdks : Multiset (String × String)) (sdks.headD "") circuits)
  hops : ∀ s ∈ subs, ∀ options suite reply events,
    createTestSuite s.sdks agents s.edges protocols options = .ok suite →
    run listens suite.1 (sdks.headD "") = some (reply, events) →
    ∀ u v t, (u, v, t) ∈ calls events → (u, v) ∈ statedEdges own sdks

/-- A selection on which emptiness, balance and connection do not come apart. -/
def Walkable (root : String) (own : Option (List (String × String)))
    (protocols : Option (List String)) (sub : List String) : Prop :=
  if protocols.getD allTransports = [] then
    inducedEdges own sub ≠ [] ∧ DegreeBalanced (inducedEdges own sub : Multiset (String × String))
  else
    DegreeBalanced (inducedEdges own sub : Multiset (String × String)) →
      inducedEdges own sub ≠ [] ∧ ∀ e ∈ inducedEdges own sub,
        Linked (inducedEdges own sub : Multiset (String × String)) root e.1

theorem traversedEdges_of_ne_nil (h : inducedEdges own sub ≠ []) :
    traversedEdges own sub = inducedEdges own sub := if_neg h

theorem balanced_traversedEdges_of_nil (h : inducedEdges own sub = []) :
    DegreeBalanced (traversedEdges own sub : Multiset (String × String)) := by
  rw [traversedEdges, if_pos h]
  exact balanced_targetEdges_none sub

/-- A walkable selection is kept exactly when it should be. -/
theorem Walkable.kept_iff (h : Walkable root own protocols sub) :
    (protocols.getD allTransports = [] ∨
        DegreeBalanced (traversedEdges own sub : Multiset (String × String))) ↔
      inducedEdges own sub ≠ [] ∧
        DegreeBalanced (inducedEdges own sub : Multiset (String × String)) := by
  unfold Walkable at h
  by_cases hts : protocols.getD allTransports = []
  · rw [if_pos hts] at h
    exact iff_of_true (Or.inl hts) h
  · rw [if_neg hts] at h
    have hempty : inducedEdges own sub ≠ [] := by
      intro hnil
      refine (h ?_).1 hnil
      rw [hnil]
      rfl
    rw [traversedEdges_of_ne_nil hempty]
    exact ⟨fun hor => ⟨hempty, hor.resolve_left hts⟩, fun hb => Or.inr hb.2⟩

theorem mem_candidates_cons :
    sub ∈ candidates (root :: remaining) ↔
      ∃ combo, sub = root :: combo ∧ combo.Sublist remaining ∧ combo ≠ [] := by
  rw [candidates, List.mem_filter, mem_selections]
  constructor
  · rintro ⟨⟨combo, rfl, hcombo⟩, hlen⟩
    refine ⟨combo, rfl, hcombo, ?_⟩
    rintro rfl
    simp at hlen
  · rintro ⟨combo, rfl, hcombo, hne⟩
    have hpos := List.length_pos_iff.mpr hne
    exact ⟨⟨combo, rfl, hcombo⟩, by simp only [List.length_cons, decide_eq_true_eq]; omega⟩

/-- What running a kept selection does. -/
theorem run_subgraph {combo : List String} {mapped : Option (List String)}
    {parsed : Option (List (String × String))} (options : HopOptions)
    (hreaches : Reaches listens agents (root :: combo))
    (hparsed : parseGivenEdges (root :: combo) mapped = .ok parsed)
    (htarget : targetEdges (root :: combo) parsed = traversedEdges own (root :: combo))
    (hkept : protocols.getD allTransports = [] ∨
      DegreeBalanced (traversedEdges own (root :: combo) : Multiset (String × String))) :
    ∃ suite circuits,
      createTestSuite (root :: combo) agents mapped protocols options = .ok suite ∧
      (protocols.getD allTransports ≠ [] → EulerCircuits
        (traversedEdges own (root :: combo) : Multiset (String × String)) root circuits) ∧
      run listens suite.1 root = some (suiteReply (protocols.getD allTransports) circuits,
        suiteEvents root (protocols.getD allTransports) circuits) ∧
      suite.2 = suiteTokens (protocols.getD allTransports) circuits := by
  obtain ⟨-, -, -, suite, hsuite⟩ | ⟨hnot, -⟩ :=
    createTestSuite_cases options hreaches.addressed mapped protocols
  · obtain ⟨circuits, hspec, hrun, htokens⟩ := run_createTestSuite hreaches hparsed hsuite
    rw [htarget] at hspec
    exact ⟨suite, circuits, hsuite, hspec, hrun, htokens⟩
  · obtain ⟨hts, hb⟩ := hnot parsed hparsed
    rw [htarget] at hb
    exact absurd hkept (by tauto)

/-- Of the selections of a scenario whose edges parse, the right ones are found
and run within the scenario exactly when every selection is walkable. -/
theorem soundSubgraphs_iff {subs : List Subgraph} {behavior : String} {streaming : Bool}
    (hown : ownEdges (root :: remaining) edges = .ok own)
    (hreaches : Reaches listens agents (root :: remaining))
    (h : getValidSubgraphs (root :: remaining) edges behavior agents protocols streaming =
      .ok subs) :
    SoundSubgraphs listens agents (root :: remaining) own protocols subs ↔
      ∀ sub ∈ candidates (root :: remaining), Walkable root own protocols sub := by
  obtain ⟨subs', hsubs', hsdks, hfound⟩ := getValidSubgraphs_spec protocols
    behavior streaming hown hreaches.addressed
  obtain rfl : subs' = subs := Except.ok.inj (hsubs'.symm.trans h)
  have hsubset : ∀ sub ∈ candidates (root :: remaining), ∀ s ∈ sub, s ∈ root :: remaining := by
    intro sub hsub
    obtain ⟨combo, rfl, hcombo, -⟩ := mem_candidates_cons.mp hsub
    exact fun s hs => (hcombo.cons_cons root).subset hs
  have hkept : ∀ s ∈ subs', protocols.getD allTransports = [] ∨
      DegreeBalanced (traversedEdges own s.sdks : Multiset (String × String)) := by
    intro s hs
    have hmem : s.sdks ∈ subs'.map Subgraph.sdks := List.mem_map_of_mem hs
    rw [hsdks] at hmem
    simpa using (List.mem_filter.mp hmem).2
  have hruns : ∀ s ∈ subs', ∀ options : HopOptions, ∃ suite circuits,
      createTestSuite s.sdks agents s.edges protocols options = .ok suite ∧
      (protocols.getD allTransports ≠ [] → EulerCircuits
        (traversedEdges own s.sdks : Multiset (String × String)) root circuits) ∧
      run listens suite.1 root = some (suiteReply (protocols.getD allTransports) circuits,
        suiteEvents root (protocols.getD allTransports) circuits) ∧
      suite.2 = suiteTokens (protocols.getD allTransports) circuits := by
    intro s hs options
    obtain ⟨hcand, parsed, hparsed, htarget⟩ := hfound s hs
    obtain ⟨combo, hcombo, -, -⟩ := mem_candidates_cons.mp hcand
    have hk := hkept s hs
    rw [hcombo] at hparsed htarget hk ⊢
    refine run_subgraph options (fun v hv => hreaches v ?_) hparsed htarget hk
    exact hsubset _ hcand v (hcombo ▸ hv)
  constructor
  · intro hsound sub hcand
    have hiff : (protocols.getD allTransports = [] ∨
        DegreeBalanced (traversedEdges own sub : Multiset (String × String))) ↔
          inducedEdges own sub ≠ [] ∧
            DegreeBalanced (inducedEdges own sub : Multiset (String × String)) := by
      have hmem := congrArg (sub ∈ ·) (hsdks.symm.trans hsound.exact)
      simpa only [List.mem_filter, hcand, true_and, decide_eq_true_eq] using iff_of_eq hmem
    unfold Walkable
    by_cases hts : protocols.getD allTransports = []
    · rw [if_pos hts]
      exact hiff.mp (Or.inl hts)
    · rw [if_neg hts]
      intro hbalanced
      have hne : inducedEdges own sub ≠ [] :=
        fun hnil => (hiff.mp (Or.inr (balanced_traversedEdges_of_nil hnil))).1 hnil
      refine ⟨hne, ?_⟩
      by_contra hunlinked
      obtain ⟨e, he⟩ := not_forall.mp hunlinked
      obtain ⟨hein, hnot⟩ := Classical.not_imp.mp he
      have hin : sub ∈ subs'.map Subgraph.sdks := by
        rw [hsound.exact]
        exact List.mem_filter.mpr ⟨hcand, by simpa using ⟨hne, hbalanced⟩⟩
      obtain ⟨s, hs, rfl⟩ := List.mem_map.mp hin
      obtain ⟨suite, circuits, hsuite, hspec, hrun, -⟩ := hruns s hs {}
      rw [traversedEdges_of_ne_nil hne] at hspec
      obtain ⟨c, hc, w, v, rest, rfl, -, hforeign⟩ := foreign_hop (hspec hts) hein hnot
      obtain ⟨t, ht⟩ := List.exists_mem_of_ne_nil _ hts
      have hstated := hsound.hops s hs {} suite _ _ hsuite hrun root v t
        (mem_calls_suiteEvents ht hc)
      have hwv : (w, v) ∈ inducedEdges own s.sdks :=
        (hspec hts).mem_edges_iff.mpr ⟨_, hc, by simp⟩
      have hsub := hsubset s.sdks hcand
      obtain ⟨combo, hcombo, -, -⟩ := mem_candidates_cons.mp hcand
      have hroot : root ∈ s.sdks := by simp [hcombo]
      exact hforeign ((mem_inducedEdges hsub).mpr
        ⟨hstated, hroot, ((mem_inducedEdges hsub).mp hwv).2.2⟩)
  · intro hwalk
    have hgood : ∀ s ∈ subs', traversedEdges own s.sdks = inducedEdges own s.sdks := by
      intro s hs
      have hcand := (hfound s hs).1
      exact traversedEdges_of_ne_nil ((hwalk _ hcand).kept_iff.mp (hkept s hs)).1
    refine ⟨?_, fun s hs options => ?_, ?_⟩
    · rw [hsdks]
      apply List.filter_congr
      intro sub hcand
      exact decide_eq_decide.mpr (hwalk sub hcand).kept_iff
    · obtain ⟨suite, circuits, hsuite, hspec, -, htokens⟩ := hruns s hs options
      rw [hgood s hs] at hspec
      exact ⟨suite, circuits, hsuite, htokens, hspec⟩
    · intro s hs options suite reply events hsuite hrun u v t hcall
      obtain ⟨suite', circuits, hsuite', hspec, hrun', -⟩ := hruns s hs options
      obtain rfl := Except.ok.inj (hsuite.symm.trans hsuite')
      cases hrun.symm.trans hrun'
      have hcand := (hfound s hs).1
      by_cases hts : protocols.getD allTransports = []
      · rw [hts] at hcall
        simp [suiteEvents, walks, calls] at hcall
      · have hlinked := hwalk s.sdks hcand
        unfold Walkable at hlinked
        rw [if_neg hts] at hlinked
        rw [hgood s hs] at hspec
        have hb := (hkept s hs).resolve_left hts
        rw [hgood s hs] at hb
        have hperm := calls_suiteEvents_of_head (protocols.getD allTransports)
          (Multiset.coe_eq_coe.mp (hspec hts).covers)
          fun c hc => (hspec hts).head_of_linked (hlinked hb).2 hc
        obtain ⟨t', -, hmem⟩ := List.mem_flatMap.mp (hperm.mem_iff.mp hcall)
        obtain ⟨e, he, heq⟩ := List.mem_map.mp hmem
        cases heq
        exact ((mem_inducedEdges (hsubset s.sdks hcand)).mp he).1

/-- What a subtest expansion is for. Edges that do not parse give no subtest. -/
def MeetsSubgraphSpec (listens : String → Option String) (agents : AgentTable)
    (sdks : List String) (edges protocols : Option (List String)) (subs : List Subgraph) :
    Prop :=
  match ownEdges sdks edges with
  | .error _ => subs = []
  | .ok own => SoundSubgraphs listens agents sdks own protocols subs

theorem getValidSubgraphs_of_error {e : PyError} (behavior : String) (streaming : Bool)
    (sdks : List String) (h : ownEdges sdks edges = .error e) :
    getValidSubgraphs sdks edges behavior agents protocols streaming = .ok [] := by
  have hnone : ∀ sub ∈ selections sdks,
      trySubgraph sdks agents edges protocols { streaming, behavior } sub = .ok none := by
    intro sub _
    rw [trySubgraph, catch_newEdges_of_error h]
    split
    · rfl
    · rfl
  rw [getValidSubgraphs, mapM_eq_ok_of_forall hnone]
  generalize selections sdks = subs
  induction subs with
  | nil => rfl
  | cons sub rest ih => exact ih

/-- The expansion into subtests is right exactly when, the edges parsing, every
selection is walkable. -/
theorem getValidSubgraphs_sound_iff (sdks : List String) (edges protocols : Option (List String))
    (behavior : String) (streaming : Bool) (hreaches : Reaches listens agents sdks) :
    (∃ subs, getValidSubgraphs sdks edges behavior agents protocols streaming = .ok subs ∧
      MeetsSubgraphSpec listens agents sdks edges protocols subs) ↔
    ∀ own, ownEdges sdks edges = .ok own →
      ∀ sub ∈ candidates sdks, Walkable (sdks.headD "") own protocols sub := by
  cases hown : ownEdges sdks edges with
  | error e =>
      refine iff_of_true ⟨[], getValidSubgraphs_of_error behavior streaming sdks hown, ?_⟩ ?_
      · rw [MeetsSubgraphSpec, hown]
      · exact fun own h => absurd h (by simp)
  | ok own =>
      unfold MeetsSubgraphSpec
      rw [hown]
      cases sdks with
      | nil =>
          refine iff_of_true ⟨[], rfl, ⟨rfl, by simp, by simp⟩⟩ ?_
          intro own' _ sub hsub
          cases hsub
      | cons root remaining =>
          obtain ⟨subs, hsubs, -⟩ := getValidSubgraphs_spec protocols behavior streaming hown
            hreaches.addressed
          have hiff := soundSubgraphs_iff hown hreaches hsubs
          constructor
          · rintro ⟨subs', hsubs', hsound⟩ own' hown'
            obtain rfl := Except.ok.inj hown'
            obtain rfl := Except.ok.inj (hsubs.symm.trans hsubs')
            exact hiff.mp hsound
          · exact fun hwalk => ⟨subs, hsubs, hiff.mpr (hwalk own rfl)⟩

end Soundness

section Examples

theorem getValidSubgraphs_sound_pair :
    (∃ subs, getValidSubgraphs ["a", "b"] (some ["0->1", "1->0"]) "send_message"
        ⟨[("a", ⟨1⟩), ("b", ⟨2⟩)]⟩ (some ["grpc"]) false = .ok subs ∧
      MeetsSubgraphSpec
        (fun uri => if uri = "http://127.0.0.1:1" then some "a" else some "b")
        ⟨[("a", ⟨1⟩), ("b", ⟨2⟩)]⟩ ["a", "b"] (some ["0->1", "1->0"]) (some ["grpc"]) subs) ↔
    ∀ own, ownEdges ["a", "b"] (some ["0->1", "1->0"]) = .ok own →
      ∀ sub ∈ candidates ["a", "b"], Walkable "a" own (some ["grpc"]) sub :=
  getValidSubgraphs_sound_iff ["a", "b"] (some ["0->1", "1->0"]) (some ["grpc"])
    "send_message" false (by
      rw [Reaches, List.forall_mem_cons, List.forall_mem_singleton]
      exact ⟨⟨"http://127.0.0.1:1", by decide, by decide⟩,
        ⟨"http://127.0.0.1:2", by decide, by decide⟩⟩)

/-- Two agents without an edge between them become a subtest, over a hop the
scenario does not have. -/
theorem getValidSubgraphs_unconnected_pair :
    ¬ ∃ subs, getValidSubgraphs ["a", "b", "c"] (some ["0->1", "1->0"]) "send_message"
        ⟨[("a", ⟨1⟩), ("b", ⟨2⟩), ("c", ⟨3⟩)]⟩ (some ["grpc"]) false = .ok subs ∧
      MeetsSubgraphSpec
        (fun uri => if uri = "http://127.0.0.1:1" then some "a"
          else if uri = "http://127.0.0.1:2" then some "b" else some "c")
        ⟨[("a", ⟨1⟩), ("b", ⟨2⟩), ("c", ⟨3⟩)]⟩ ["a", "b", "c"] (some ["0->1", "1->0"])
        (some ["grpc"]) subs := by
  rintro ⟨subs, hsubs, hspec⟩
  have hreally : (getValidSubgraphs ["a", "b", "c"] (some ["0->1", "1->0"]) "send_message"
      ⟨[("a", ⟨1⟩), ("b", ⟨2⟩), ("c", ⟨3⟩)]⟩ (some ["grpc"]) false).toOption.map
        (List.map Subgraph.sdks) =
      some [["a", "b"], ["a", "c"], ["a", "b", "c"]] := by decide
  rw [hsubs] at hreally
  have hsdks : subs.map Subgraph.sdks = [["a", "b"], ["a", "c"], ["a", "b", "c"]] := by
    simpa [Except.toOption] using hreally
  have hown : ownEdges ["a", "b", "c"] (some ["0->1", "1->0"]) =
      .ok (some [("a", "b"), ("b", "a")]) := by decide
  rw [MeetsSubgraphSpec, hown] at hspec
  have hexact := hspec.exact
  rw [hsdks] at hexact
  exact absurd hexact (by decide)

end Examples

end A2aItk.Traversal
