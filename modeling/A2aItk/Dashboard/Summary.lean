import A2aItk.Dashboard.Texts
import A2aItk.Traversal.TestSuite

/-!
# The summary star

`summaryTopology` of `dashboard/src/itk/lib.ts`: the star of `current` and every peer that
is shown above the pairs.

## Implementation notes

A scenario without `sdks` is one with none.
-/

namespace A2aItk.Dashboard

open Traversal (printEdge)

/-- What the summary reads of a scenario. -/
structure Scenario where
  sdks : List String
  edges : Option (List String) := none

/-- A topology to be drawn: names, and edges between their places. -/
structure Topology where
  sdks : List String
  edges : List String

variable (letters : LetterCase) (scenarios : List Scenario)

/-- The name the current agent goes by, in the case it is first written in. -/
def currentLabel : String :=
  ((scenarios.flatMap Scenario.sdks).find? letters.isCurrent).getD "current"

/-- One more peer, unless it is the current agent or is there already. -/
def addPeer (peers : List String) (sdk : String) : List String :=
  if sdk ≠ "" && !letters.isCurrent sdk && sdk ∉ peers then peers ++ [sdk] else peers

/-- Every other agent, in the order they are first seen. -/
def peers : List String :=
  scenarios.foldl (fun found scenario => scenario.sdks.foldl (addPeer letters) found) []

/-- The agents of the first scenario that has most. -/
def biggest : List String :=
  scenarios.foldl (fun found scenario =>
    if found.length < scenario.sdks.length then scenario.sdks else found) []

/-- The largest scenario has everybody in it already. -/
def useBiggest : Bool :=
  (biggest scenarios).length = (peers letters scenarios).length + 1 &&
    (biggest scenarios).any letters.isCurrent

/-- The names in the order in which they are drawn. -/
def summarySdks : List String :=
  if useBiggest letters scenarios then biggest scenarios
  else currentLabel letters scenarios :: peers letters scenarios

/-- There and back between the root and every other index. -/
def starEdges (rootIdx count : ℕ) : List String :=
  (List.range count).flatMap fun idx =>
    if idx = rootIdx then [] else [printEdge rootIdx idx, printEdge idx rootIdx]

/-- The star of the summary: the current agent in the middle. -/
def summaryTopology : Topology :=
  let sdks := summarySdks letters scenarios
  let rootIdx := (sdks.findIdx? letters.isCurrent).getD 0
  ⟨sdks, starEdges rootIdx sdks.length⟩

/-- The agent occurs in some scenario, and is a peer. -/
def IsPeer (name : String) : Prop :=
  letters.isCurrent name = false ∧ ∃ scenario ∈ scenarios, name ∈ scenario.sdks

/-- Agents have names, none twice, and `current` in one spelling. -/
structure Scenario.Regular (scenario : Scenario) : Prop where
  named : ∀ name ∈ scenario.sdks, name ≠ ""
  distinct : scenario.sdks.Nodup
  oneSpelling : ∀ a ∈ scenario.sdks, ∀ b ∈ scenario.sdks,
    letters.isCurrent a = true → letters.isCurrent b = true → a = b

/-- One `current`, every peer once, and nothing else. -/
structure CompleteList (sdks : List String) : Prop where
  oneCurrent : sdks.countP letters.isCurrent = 1
  everyPeer : ∀ name, IsPeer letters scenarios name → sdks.count name = 1
  nothingElse : ∀ name ∈ sdks, letters.isCurrent name = true ∨ IsPeer letters scenarios name

/-- Such a list, with the edges from its `current` to each of the others and back. -/
structure WellFormedStar (topology : Topology) : Prop where
  complete : CompleteList letters scenarios topology.sdks
  star : ∃ root hub, topology.sdks[root]? = some hub ∧ letters.isCurrent hub = true ∧
    topology.edges.Nodup ∧
    ∀ edge, edge ∈ topology.edges ↔ ∃ idx, idx < topology.sdks.length ∧ idx ≠ root ∧
      (edge = printEdge root idx ∨ edge = printEdge idx root)

section Edges

/-- An edge is read off its text. -/
theorem printEdge_inj {u v u' v' : ℕ} (h : printEdge u v = printEdge u' v') :
    u = u' ∧ v = v' := by
  have hread := (Traversal.readIndices_printEdge u v).symm.trans
    (h ▸ Traversal.readIndices_printEdge u' v')
  have hpair := Except.ok.inj hread
  rw [Prod.mk.injEq, Int.natCast_inj, Int.natCast_inj] at hpair
  exact hpair

variable {root count : ℕ}

/-- Every other name has an edge to the middle and one back. -/
theorem mem_starEdges {edge : String} :
    edge ∈ starEdges root count ↔ ∃ idx, idx < count ∧ idx ≠ root ∧
      (edge = printEdge root idx ∨ edge = printEdge idx root) := by
  rw [starEdges, List.mem_flatMap]
  refine exists_congr fun idx => ?_
  rw [List.mem_range]
  by_cases hroot : idx = root
  · simp [hroot]
  · simp [hroot]

/-- No edge is drawn twice. -/
theorem starEdges_nodup : (starEdges root count).Nodup := by
  rw [starEdges, List.nodup_flatMap]
  constructor
  · intro idx _
    split
    · exact List.nodup_nil
    · rename_i hne
      rw [List.nodup_cons, List.mem_singleton]
      exact ⟨fun heq => hne (printEdge_inj heq).2, List.nodup_singleton _⟩
  · refine List.nodup_range.imp fun {i j} hij => ?_
    change List.Disjoint _ _
    rw [List.disjoint_left]
    intro edge hi hj
    beta_reduce at hi hj
    split at hi
    · cases hi
    · split at hj
      · cases hj
      · rename_i hi' hj'
        simp only [List.mem_cons, List.not_mem_nil, or_false] at hi hj
        rcases hi with rfl | rfl
        · rcases hj with hj | hj
          · exact hij (printEdge_inj hj).2
          · exact hj' (printEdge_inj hj).1.symm
        · rcases hj with hj | hj
          · exact hi' (printEdge_inj hj).1
          · exact hij (printEdge_inj hj).1

end Edges

section Peers

variable {letters} {scenarios} {found names : List String} {name : String}

/-- A further name is added if it is there, and is not the current agent's. -/
theorem mem_addPeer {sdk : String} :
    name ∈ addPeer letters found sdk ↔
      name ∈ found ∨ name = sdk ∧ name ≠ "" ∧ letters.isCurrent name = false := by
  rw [addPeer]
  split
  · rename_i hnew
    simp only [Bool.and_eq_true, decide_eq_true_eq, Bool.not_eq_true'] at hnew
    rw [List.mem_append, List.mem_singleton]
    refine or_congr_right (iff_self_and.mpr ?_)
    rintro rfl
    exact hnew.1
  · rename_i hold
    simp only [Bool.and_eq_true, decide_eq_true_eq, Bool.not_eq_true'] at hold
    refine (or_iff_left_of_imp ?_).symm
    rintro ⟨rfl, hnamed, hpeer⟩
    by_contra hnew
    exact hold ⟨⟨hnamed, hpeer⟩, hnew⟩

/-- Adding a peer lists nobody twice. -/
theorem addPeer_nodup {sdk : String} (h : found.Nodup) : (addPeer letters found sdk).Nodup := by
  rw [addPeer]
  split
  · rename_i hnew
    simp only [Bool.and_eq_true, decide_eq_true_eq] at hnew
    rw [List.nodup_append]
    exact ⟨h, List.nodup_singleton sdk, fun a ha b hb => by
      rintro rfl
      exact hnew.2 (List.mem_singleton.mp hb ▸ ha)⟩
  · exact h

/-- Over a list of names, by induction on them. -/
theorem mem_addPeers :
    name ∈ names.foldl (addPeer letters) found ↔
      name ∈ found ∨ name ∈ names ∧ name ≠ "" ∧ letters.isCurrent name = false := by
  induction names generalizing found with
  | nil => simp
  | cons sdk rest ih =>
      rw [List.foldl_cons, ih, mem_addPeer, List.mem_cons, or_assoc, or_and_right]

/-- Adding a list of peers lists nobody twice. -/
theorem addPeers_nodup (h : found.Nodup) : (names.foldl (addPeer letters) found).Nodup := by
  induction names generalizing found with
  | nil => exact h
  | cons sdk rest ih => exact ih (addPeer_nodup h)

/-- The peers of all scenarios, gathered from one list. -/
theorem peers_eq : peers letters scenarios =
    (scenarios.flatMap Scenario.sdks).foldl (addPeer letters) [] := by
  rw [peers, List.foldl_flatMap]

/-- No peer is listed twice. -/
theorem peers_nodup : (peers letters scenarios).Nodup := by
  rw [peers_eq]
  exact addPeers_nodup List.nodup_nil

/-- The peers listed are the peers of the scenarios. -/
theorem mem_peers (hregular : ∀ scenario ∈ scenarios, scenario.Regular letters) :
    name ∈ peers letters scenarios ↔ IsPeer letters scenarios name := by
  rw [peers_eq, mem_addPeers, or_iff_right List.not_mem_nil, List.mem_flatMap]
  constructor
  · rintro ⟨hoccurs, -, hpeer⟩
    exact ⟨hpeer, hoccurs⟩
  · rintro ⟨hpeer, scenario, hscenario, hname⟩
    exact ⟨⟨scenario, hscenario, hname⟩, (hregular scenario hscenario).named name hname, hpeer⟩

/-- The label is one of the current agent. -/
theorem isCurrent_currentLabel : letters.isCurrent (currentLabel letters scenarios) = true := by
  rw [currentLabel]
  cases hfind : (scenarios.flatMap Scenario.sdks).find? letters.isCurrent with
  | none => exact letters.isCurrent_current
  | some label => exact List.find?_some hfind

/-- The largest scenario is one of them. -/
theorem biggest_mem : biggest scenarios = [] ∨
    ∃ scenario ∈ scenarios, scenario.sdks = biggest scenarios := by
  have hfold : ∀ (rest : List Scenario) (found : List String),
      rest.foldl (fun found scenario =>
        if found.length < scenario.sdks.length then scenario.sdks else found) found = found ∨
      ∃ scenario ∈ rest, scenario.sdks = rest.foldl (fun found scenario =>
        if found.length < scenario.sdks.length then scenario.sdks else found) found := by
    intro rest
    induction rest with
    | nil => exact fun found => .inl rfl
    | cons scenario rest ih =>
        intro found
        rw [List.foldl_cons]
        rcases ih (if found.length < scenario.sdks.length then scenario.sdks else found) with
          hkept | ⟨other, hother, hsdks⟩
        · rw [hkept]
          split
          · exact .inr ⟨scenario, List.mem_cons_self, rfl⟩
          · exact .inl rfl
        · exact .inr ⟨other, List.mem_cons_of_mem _ hother, hsdks⟩
  exact hfold scenarios []

end Peers

section Star

variable {letters} {scenarios}

/-- A list that is put together from the peers is complete. -/
theorem completeList_synthesised (hregular : ∀ scenario ∈ scenarios, scenario.Regular letters) :
    CompleteList letters scenarios
      (currentLabel letters scenarios :: peers letters scenarios) where
  oneCurrent := by
    rw [List.countP_cons_of_pos isCurrent_currentLabel, Nat.add_eq_right, List.countP_eq_zero]
    intro name hname
    simp [((mem_peers hregular).mp hname).1]
  everyPeer name hpeer := by
    have hne : currentLabel letters scenarios ≠ name := by
      rintro rfl
      exact Bool.false_ne_true (hpeer.1.symm.trans isCurrent_currentLabel)
    rw [List.count_cons_of_ne hne]
    exact List.count_eq_one_of_mem peers_nodup ((mem_peers hregular).mpr hpeer)
  nothingElse name hname := by
    rcases List.mem_cons.mp hname with rfl | hname
    · exact .inl isCurrent_currentLabel
    · exact .inr ((mem_peers hregular).mp hname)

/-- A regular scenario with one agent more than there are peers has them all. -/
theorem completeList_biggest (hregular : ∀ scenario ∈ scenarios, scenario.Regular letters)
    {scenario : Scenario} (hscenario : scenario ∈ scenarios)
    (hlength : scenario.sdks.length = (peers letters scenarios).length + 1)
    (hcurrent : ∃ name ∈ scenario.sdks, letters.isCurrent name = true) :
    CompleteList letters scenarios scenario.sdks := by
  obtain ⟨hnamed, hdistinct, hspelling⟩ := hregular scenario hscenario
  have hone : scenario.sdks.countP letters.isCurrent = 1 := by
    obtain ⟨label, hlabel, hcurrent⟩ := hcurrent
    calc scenario.sdks.countP letters.isCurrent
        = scenario.sdks.countP (· == label) := by
          apply List.countP_congr
          intro name hname
          rw [beq_iff_eq]
          exact ⟨fun h => hspelling name hname label hlabel h hcurrent, fun h => h ▸ hcurrent⟩
      _ = 1 := List.count_eq_one_of_mem hdistinct hlabel
  have hothers : (scenario.sdks.filter (!letters.isCurrent ·)).Perm (peers letters scenarios) := by
    have hsubset : scenario.sdks.filter (!letters.isCurrent ·) ⊆ peers letters scenarios := by
      intro name hname
      obtain ⟨hmem, hpeer⟩ := List.mem_filter.mp hname
      exact (mem_peers hregular).mpr ⟨by simpa using hpeer, scenario, hscenario, hmem⟩
    refine (List.subperm_of_subset (hdistinct.filter _) hsubset).perm_of_length_le ?_
    have hsplit : scenario.sdks.length = scenario.sdks.countP letters.isCurrent +
        (scenario.sdks.filter (!letters.isCurrent ·)).length := by
      rw [← List.countP_eq_length_filter]
      simpa using List.length_eq_countP_add_countP letters.isCurrent (l := scenario.sdks)
    omega
  refine ⟨hone, fun name hpeer => ?_, fun name hname => ?_⟩
  · have hmem := hothers.mem_iff.mpr ((mem_peers hregular).mpr hpeer)
    exact List.count_eq_one_of_mem hdistinct (List.mem_filter.mp hmem).1
  · cases hcase : letters.isCurrent name with
    | true => exact .inl rfl
    | false => exact .inr ⟨hcase, scenario, hscenario, hname⟩

/-- The list that is drawn is complete, whichever of the two it is. -/
theorem completeList_summarySdks (hregular : ∀ scenario ∈ scenarios, scenario.Regular letters) :
    CompleteList letters scenarios (summarySdks letters scenarios) := by
  rw [summarySdks]
  split
  · rename_i huse
    rw [useBiggest, Bool.and_eq_true, decide_eq_true_eq, List.any_eq_true] at huse
    rcases @biggest_mem scenarios with hnil | ⟨scenario, hscenario, hsdks⟩
    · rw [hnil] at huse
      simp at huse
    · rw [← hsdks] at huse ⊢
      exact completeList_biggest hregular hscenario huse.1 huse.2
  · exact completeList_synthesised hregular

end Star

/-- The summary of regular scenarios is a well-formed star. -/
theorem summary_wellFormed (hregular : ∀ scenario ∈ scenarios, scenario.Regular letters) :
    WellFormedStar letters scenarios (summaryTopology letters scenarios) := by
  have hcomplete := completeList_summarySdks hregular
  refine ⟨hcomplete, ?_⟩
  obtain ⟨root, hroot⟩ : ∃ root,
      (summarySdks letters scenarios).findIdx? letters.isCurrent = some root := by
    rw [← Option.isSome_iff_exists, List.findIdx?_isSome]
    have hpos : 0 < (summarySdks letters scenarios).countP letters.isCurrent := by
      rw [hcomplete.oneCurrent]
      exact Nat.one_pos
    obtain ⟨name, hname, hcurrent⟩ := List.countP_pos_iff.mp hpos
    exact List.any_eq_true.mpr ⟨name, hname, hcurrent⟩
  obtain ⟨hlt, hcurrent, -⟩ := List.findIdx?_eq_some_iff_getElem.mp hroot
  refine ⟨root, (summarySdks letters scenarios)[root], List.getElem?_eq_getElem hlt, hcurrent, ?_⟩
  rw [summaryTopology, hroot]
  exact ⟨starEdges_nodup, fun edge => mem_starEdges⟩

section Examples

/-- A scenario of two agents. -/
def pairOf (a b : String) : Scenario := ⟨[a, b], none⟩

theorem summary_wellFormed_pairs :
    WellFormedStar .plain [pairOf "go_v10" "Current", pairOf "current" "ts_v03"]
      (summaryTopology .plain [pairOf "go_v10" "Current", pairOf "current" "ts_v03"]) := by
  apply summary_wellFormed
  intro scenario hscenario
  simp only [List.mem_cons, List.not_mem_nil, or_false] at hscenario
  rcases hscenario with rfl | rfl <;> exact ⟨by decide, by decide, by decide +kernel⟩

end Examples

end A2aItk.Dashboard
