import A2aItk.Dashboard.ArrowFlips
import Mathlib.Data.List.Permutation

/-!
# What the pairwise cards show

Every pair of agents has one card. The edges of a card are those of its source where the
source is listed in display order, or where each of its edges can be flipped.
-/

namespace A2aItk.Dashboard

open Python
open Traversal (parseEdgeString parseEdgeStrings Spells parseEdgeString_eq_ok_iff
  parseEdgeStrings_eq_ok_iff)

variable (letters : LetterCase) (scenarios : List Scenario) (summarySdks : List String)

/-- Agents of two-agent scenarios have no comma in their names, and the engine accepts
the edges. -/
structure ReadablePairs (scenarios : List Scenario) : Prop where
  noComma : ∀ scenario ∈ scenarios, isPair scenario = true →
    ∀ name ∈ scenario.sdks, ',' ∉ name.toList
  accepted : ∀ scenario ∈ scenarios, isPair scenario = true →
    ∀ edge ∈ scenario.edges.getD [], ∃ hop, parseEdgeString scenario.sdks edge = .ok hop

/-- Every two-agent scenario stands in one group, and every unordered pair has one. -/
structure PartitionsPairs (groups : List PairwiseGroup) : Prop where
  placed : (groups.flatMap PairwiseGroup.scenarios).Perm (scenarios.filter isPair)
  distinct : groups.Pairwise fun group group' => ¬ group.sdks.Perm group'.sdks
  ownPair : ∀ group ∈ groups, ∀ scenario ∈ group.scenarios,
    (scenario.sdks.map letters.toLowerCase).Perm group.sdks
  inhabited : ∀ group ∈ groups, group.scenarios ≠ []

/-- The edges of a group and those of its source name the same hops, one by one. -/
def SameHops (group : PairwiseGroup) : Prop :=
  ∃ source hops, sourceOf letters group.sdks group.scenarios = some source ∧
    parseEdgeStrings (source.edges.getD []) source.sdks = .ok hops ∧
    parseEdgeStrings group.edges group.sdks =
      .ok (hops.map (Prod.map letters.toLowerCase letters.toLowerCase))

/-- Two agents each, and the same ones. -/
def samePair (scenario other : Scenario) : Bool :=
  isPair other && pairKey letters other.sdks = pairKey letters scenario.sdks

/-- Where no scenario lists a pair in display order, each edge of the pair's first scenario
can be flipped. -/
def FlipsCleanly : Prop :=
  ∀ scenario ∈ scenarios, isPair scenario = true →
    scenarios.find? (samePair letters scenario) = some scenario →
    (∀ other ∈ scenarios, samePair letters scenario other = true →
      inOrder letters (displaySdks letters summarySdks (pairKey letters scenario.sdks)) other =
        false) →
    ∀ edge ∈ scenario.edges.getD [], Flippable edge

section Keys

variable {letters} {scenarios} {summarySdks}

theorem toNat_lt_codeSpace (c : Char) : c.toNat < 0x110000 := by
  rcases c.valid with h | h
  · exact Nat.lt_trans h (by decide)
  · exact h.2

theorem codeUnitRank_injective : Function.Injective codeUnitRank := by
  intro c d h
  have hc := toNat_lt_codeSpace c
  have hd := toNat_lt_codeSpace d
  rw [← Char.toNat_inj]
  unfold codeUnitRank at h
  split_ifs at h with hhigh hhigh' <;> omega

theorem textLe_trans (a b c : String) (hab : textLe a b = true) (hbc : textLe b c = true) :
    textLe a c = true := by
  simp only [textLe, decide_eq_true_eq] at *
  exact le_trans hab hbc

theorem textLe_total (a b : String) : (textLe a b || textLe b a) = true := by
  simp only [textLe, Bool.or_eq_true, decide_eq_true_eq]
  exact le_total _ _

theorem textLe_antisymm {a b : String} (hab : textLe a b = true) (hba : textLe b a = true) :
    a = b := by
  simp only [textLe, decide_eq_true_eq] at *
  exact String.toList_inj.mp
    (List.map_injective_iff.mpr codeUnitRank_injective (le_antisymm hab hba))

/-- Sorting forgets the order. -/
theorem mergeSort_textLe_eq_iff {a b : List String} :
    a.mergeSort textLe = b.mergeSort textLe ↔ a.Perm b := by
  constructor
  · intro h
    exact (List.mergeSort_perm a textLe).symm.trans (h ▸ List.mergeSort_perm b textLe)
  · intro h
    refine List.Perm.eq_of_pairwise (fun _ _ _ _ => textLe_antisymm)
      (List.pairwise_mergeSort textLe_trans textLe_total a)
      (List.pairwise_mergeSort textLe_trans textLe_total b) ?_
    exact (List.mergeSort_perm a textLe).trans (h.trans (List.mergeSort_perm b textLe).symm)

/-- A key falls apart into the names it is made of. -/
theorem keyParts_pairKey {sdks : List String} (hpair : sdks.length = 2)
    (hcomma : ∀ name ∈ sdks, ',' ∉ name.toList) :
    keyParts (pairKey letters sdks) = (sdks.map letters.toLowerCase).mergeSort textLe := by
  have hlen : ((sdks.map letters.toLowerCase).mergeSort textLe).length = 2 := by
    rw [List.length_mergeSort, List.length_map, hpair]
  have hparts : ∀ part ∈ (sdks.map letters.toLowerCase).mergeSort textLe,
      ',' ∉ part.toList := by
    intro part hpart
    rw [List.mem_mergeSort, List.mem_map] at hpart
    obtain ⟨name, hname, rfl⟩ := hpart
    exact letters.comma name (hcomma name hname)
  rw [pairKey]
  obtain ⟨a, b, hab⟩ := List.length_eq_two.mp hlen
  rw [hab] at hparts ⊢
  have hsplit : Text.split [','] (a.toList ++ ([','] ++ b.toList)) = [a.toList, b.toList] :=
    Text.split_join rfl (hparts a (by simp)) (hparts b (by simp))
  have hkey : (",".intercalate [a, b]).toList = a.toList ++ ([','] ++ b.toList) := by
    rw [String.intercalate_cons_cons, String.intercalate_singleton, String.toList_append,
      String.toList_append, List.append_assoc]
    rfl
  rw [keyParts, hkey, hsplit]
  simp

theorem pairKey_eq_iff {a b : List String} (ha : a.length = 2) (hb : b.length = 2)
    (hacomma : ∀ name ∈ a, ',' ∉ name.toList) (hbcomma : ∀ name ∈ b, ',' ∉ name.toList) :
    pairKey letters a = pairKey letters b ↔
      (a.map letters.toLowerCase).Perm (b.map letters.toLowerCase) := by
  rw [← mergeSort_textLe_eq_iff]
  constructor
  · intro h
    rw [← keyParts_pairKey ha hacomma, ← keyParts_pairKey hb hbcomma, h]
  · exact congrArg _

theorem displaySdks_perm {sdks : List String} (hpair : sdks.length = 2)
    (hcomma : ∀ name ∈ sdks, ',' ∉ name.toList) :
    (sdks.map letters.toLowerCase).Perm
      (displaySdks letters summarySdks (pairKey letters sdks)) := by
  rw [displaySdks, keyParts_pairKey hpair hcomma]
  exact ((List.mergeSort_perm _ _).trans (List.mergeSort_perm _ _)).symm

theorem mem_addKey {keys : List String} {scenario : Scenario} {key : String} :
    key ∈ addKey letters keys scenario ↔
      key ∈ keys ∨ isPair scenario = true ∧ pairKey letters scenario.sdks = key := by
  rw [addKey]
  split
  · rename_i hnew
    rw [Bool.and_eq_true] at hnew
    rw [List.mem_append, List.mem_singleton]
    simp only [hnew.1, true_and, eq_comm]
  · rename_i hold
    rw [Bool.and_eq_true, decide_eq_true_eq, not_and, not_not] at hold
    refine (or_iff_left_of_imp ?_).symm
    rintro ⟨hpair, rfl⟩
    exact hold hpair

theorem nodup_addKey {keys : List String} (h : keys.Nodup) (scenario : Scenario) :
    (addKey letters keys scenario).Nodup := by
  rw [addKey]
  split
  · rename_i hnew
    rw [Bool.and_eq_true, decide_eq_true_eq] at hnew
    exact List.nodup_append.mpr ⟨h, List.nodup_singleton _, by
      rintro a ha b hb rfl
      rw [List.mem_singleton] at hb
      exact hnew.2 (hb ▸ ha)⟩
  · exact h

/-- The keys are those of the two-agent scenarios, each once. -/
theorem pairKeys_spec : (pairKeys letters scenarios).Nodup ∧ ∀ key,
    key ∈ pairKeys letters scenarios ↔
      ∃ scenario ∈ scenarios, isPair scenario = true ∧ pairKey letters scenario.sdks = key := by
  have hfold : ∀ (rest : List Scenario) (keys : List String), keys.Nodup →
      (rest.foldl (addKey letters) keys).Nodup ∧ ∀ key, key ∈ rest.foldl (addKey letters) keys ↔
        key ∈ keys ∨ ∃ scenario ∈ rest,
          isPair scenario = true ∧ pairKey letters scenario.sdks = key := by
    intro rest
    induction rest with
    | nil => exact fun keys h => ⟨h, fun key => by simp⟩
    | cons scenario rest ih =>
        intro keys h
        obtain ⟨hnodup, hmem⟩ := ih _ (nodup_addKey h scenario)
        refine ⟨hnodup, fun key => ?_⟩
        rw [List.foldl_cons, hmem, mem_addKey, or_assoc]
        simp
  obtain ⟨hnodup, hmem⟩ := hfold scenarios [] List.nodup_nil
  exact ⟨hnodup, fun key => by rw [pairKeys, hmem]; simp⟩

theorem mem_pairwiseGroups {group : PairwiseGroup} :
    group ∈ pairwiseGroups letters scenarios summarySdks ↔
      ∃ scenario ∈ scenarios, isPair scenario = true ∧
        pairwiseGroup letters scenarios summarySdks (pairKey letters scenario.sdks) = group := by
  rw [pairwiseGroups, List.mem_map]
  constructor
  · rintro ⟨key, hkey, rfl⟩
    rw [List.mem_mergeSort, pairKeys_spec.2] at hkey
    obtain ⟨scenario, hscenario, hpair, rfl⟩ := hkey
    exact ⟨scenario, hscenario, hpair, rfl⟩
  · rintro ⟨scenario, hscenario, hpair, rfl⟩
    exact ⟨_, List.mem_mergeSort.mpr ((pairKeys_spec.2 _).mpr ⟨scenario, hscenario, hpair, rfl⟩),
      rfl⟩

end Keys

section Partition

variable {letters} {scenarios} {summarySdks}

theorem isPair_iff {scenario : Scenario} : isPair scenario = true ↔ scenario.sdks.length = 2 := by
  rw [isPair, decide_eq_true_eq]

theorem mem_groupOf {key : String} {scenario : Scenario} :
    scenario ∈ groupOf letters scenarios key ↔
      scenario ∈ scenarios ∧ isPair scenario = true ∧ pairKey letters scenario.sdks = key := by
  rw [groupOf, List.mem_filter, Bool.and_eq_true, decide_eq_true_eq]

theorem pairwiseGroups_partitionsPairs (h : ReadablePairs scenarios) :
    PartitionsPairs letters scenarios (pairwiseGroups letters scenarios summarySdks) where
  placed := by
    rw [pairwiseGroups, List.flatMap_map]
    have hgroups : (fun key => (pairwiseGroup letters scenarios summarySdks key).scenarios) =
        fun key => (scenarios.filter isPair).filter fun s => pairKey letters s.sdks = key := by
      funext key
      rw [List.filter_filter]
      refine List.filter_congr fun s _ => ?_
      rw [Bool.and_comm]
    rw [hgroups]
    refine ((List.mergeSort_perm _ _).flatMap_right _).trans
      (Dict.flatMap_filter_perm pairKeys_spec.1 fun s hs => ?_)
    obtain ⟨hin, hpair⟩ := List.mem_filter.mp hs
    exact (pairKeys_spec.2 _).mpr ⟨s, hin, hpair, rfl⟩
  distinct := by
    rw [pairwiseGroups, List.pairwise_map]
    have hnodup : ((pairKeys letters scenarios).mergeSort (keyLe letters summarySdks)).Nodup :=
      (List.mergeSort_perm _ _).nodup_iff.mpr pairKeys_spec.1
    refine List.Pairwise.imp_of_mem (fun {key key'} hkey hkey' hne hperm => hne ?_) hnodup
    rw [List.mem_mergeSort, pairKeys_spec.2] at hkey hkey'
    obtain ⟨s, hs, hpair, rfl⟩ := hkey
    obtain ⟨s', hs', hpair', rfl⟩ := hkey'
    have hlen := isPair_iff.mp hpair
    have hlen' := isPair_iff.mp hpair'
    have hcomma := h.noComma s hs hpair
    have hcomma' := h.noComma s' hs' hpair'
    rw [pairKey_eq_iff hlen hlen' hcomma hcomma']
    exact (displaySdks_perm hlen hcomma).trans (hperm.trans (displaySdks_perm hlen' hcomma').symm)
  ownPair := by
    intro group hgroup scenario hscenario
    obtain ⟨s, -, -, rfl⟩ := mem_pairwiseGroups.mp hgroup
    obtain ⟨hin, hpair, hkey⟩ := mem_groupOf.mp hscenario
    have hperm : (scenario.sdks.map letters.toLowerCase).Perm
        (displaySdks letters summarySdks (pairKey letters scenario.sdks)) :=
      displaySdks_perm (isPair_iff.mp hpair) (h.noComma scenario hin hpair)
    rwa [hkey] at hperm
  inhabited := by
    intro group hgroup
    obtain ⟨s, hs, hpair, rfl⟩ := mem_pairwiseGroups.mp hgroup
    exact List.ne_nil_of_mem (mem_groupOf.mpr ⟨hs, hpair, rfl⟩)

end Partition

section Hops

variable {letters} {scenarios} {summarySdks} {x y : String} {edge : String}
  {hop : String × String}

/-- Names in other letters name the same hop. -/
theorem spells_map {sdks : List String} (f : String → String) (h : Spells sdks edge hop) :
    Spells (sdks.map f) edge (Prod.map f f hop) := by
  obtain ⟨u, v, hread, hu, hv, rfl⟩ := h
  refine ⟨u, v, hread, by simpa using hu, by simpa using hv, ?_⟩
  simp [List.getD_eq_getElem?_getD, hu, hv]

theorem parseEdgeStrings_map {sdks edges : List String} {hops : List (String × String)}
    (f : String → String) (h : parseEdgeStrings edges sdks = .ok hops) :
    parseEdgeStrings edges (sdks.map f) = .ok (hops.map (Prod.map f f)) := by
  rw [parseEdgeStrings_eq_ok_iff] at h ⊢
  rw [List.forall₂_map_right_iff]
  exact h.imp fun _ _ => spells_map f

/-- An index of a pair, and the other one. -/
theorem getD_pair_swap {p q : String} (hne : p ≠ q) {u u' : ℕ} (hu : u < 2) (hu' : u' < 2) :
    [p, q].getD u' "" = [q, p].getD u "" ↔ u' = 1 - u := by
  have hcases : (u = 0 ∨ u = 1) ∧ (u' = 0 ∨ u' = 1) := by omega
  obtain ⟨rfl | rfl, rfl | rfl⟩ := hcases
  · simp [hne]
  · simp
  · simp
  · simp [hne.symm]

/-- Against the agents the other way round, a flippable edge names its old hop, and no
other edge does. -/
theorem spells_flipEdge (f : String → String) (hne : f x ≠ f y) (h : Spells [x, y] edge hop) :
    Spells [f y, f x] (flipEdge edge) (Prod.map f f hop) ↔ Flippable edge := by
  obtain ⟨u, v, hread, hu, hv, rfl⟩ := h
  have hmap : ∀ w : ℕ, w < 2 → f ([x, y].getD w "") = [f x, f y].getD w "" := by
    intro w hw
    have hcases : w = 0 ∨ w = 1 := by omega
    rcases hcases with rfl | rfl <;> rfl
  rw [← readIndices_flipEdge hread hu hv, Prod.map_apply, hmap u hu, hmap v hv]
  constructor
  · rintro ⟨u', v', hread', hu', hv', heq⟩
    rw [Prod.mk.injEq] at heq
    rw [hread', (getD_pair_swap hne.symm hu hu').mp heq.1.symm,
      (getD_pair_swap hne.symm hv hv').mp heq.2.symm]
  · intro hread'
    have hflip : ∀ w < 2, 1 - w < [f y, f x].length := fun w _ => by
      rw [List.length_cons, List.length_singleton]
      omega
    refine ⟨1 - u, 1 - v, hread', hflip u hu, hflip v hv, ?_⟩
    rw [(getD_pair_swap hne.symm hu (hflip u hu)).mpr rfl,
      (getD_pair_swap hne.symm hv (hflip v hv)).mpr rfl]

theorem parseEdgeStrings_flipEdge (f : String → String) (hne : f x ≠ f y) {edges : List String}
    {hops : List (String × String)} (h : parseEdgeStrings edges [x, y] = .ok hops) :
    parseEdgeStrings (edges.map flipEdge) [f y, f x] = .ok (hops.map (Prod.map f f)) ↔
      ∀ edge ∈ edges, Flippable edge := by
  rw [parseEdgeStrings_eq_ok_iff] at h ⊢
  induction h with
  | nil => simp
  | cons hedge hrest ih =>
      rw [List.map_cons, List.map_cons, List.forall₂_cons, ih, spells_flipEdge f hne hedge,
        List.forall_mem_cons]

theorem exists_parseEdgeStrings {sdks edges : List String}
    (h : ∀ edge ∈ edges, ∃ hop, parseEdgeString sdks edge = .ok hop) :
    ∃ hops, parseEdgeStrings edges sdks = .ok hops := by
  induction edges with
  | nil => exact ⟨[], rfl⟩
  | cons edge rest ih =>
      obtain ⟨hop, hhop⟩ := h edge (by simp)
      obtain ⟨hops, hhops⟩ := ih fun e he => h e (by simp [he])
      rw [parseEdgeStrings_eq_ok_iff] at hhops
      exact ⟨hop :: hops, parseEdgeStrings_eq_ok_iff.mpr
        (.cons (parseEdgeString_eq_ok_iff.mp hhop) hhops)⟩

end Hops

section Groups

variable {letters} {scenarios} {summarySdks} {scenario : Scenario}

/-- A two-agent scenario lists its pair in display order, or the other way round. -/
theorem display_cases (summarySdks : List String) (h : ReadablePairs scenarios)
    (hin : scenario ∈ scenarios) (hpair : isPair scenario = true) :
    ∃ x y, scenario.sdks = [x, y] ∧
      (displaySdks letters summarySdks (pairKey letters scenario.sdks) =
          [letters.toLowerCase x, letters.toLowerCase y] ∨
        displaySdks letters summarySdks (pairKey letters scenario.sdks) =
          [letters.toLowerCase y, letters.toLowerCase x]) := by
  obtain ⟨x, y, hxy⟩ := List.length_eq_two.mp (isPair_iff.mp hpair)
  have hperm : (scenario.sdks.map letters.toLowerCase).Perm
      (displaySdks letters summarySdks (pairKey letters scenario.sdks)) :=
    displaySdks_perm (isPair_iff.mp hpair) (h.noComma scenario hin hpair)
  refine ⟨x, y, hxy, ?_⟩
  generalize displaySdks letters summarySdks (pairKey letters scenario.sdks) = display at hperm
  rw [hxy, List.map_cons, List.map_singleton] at hperm
  exact List.perm_pair.mp hperm.symm

theorem groupOf_eq_filter :
    groupOf letters scenarios (pairKey letters scenario.sdks) =
      scenarios.filter (samePair letters scenario) := rfl

/-- A source in display order is shown as it is. -/
theorem sameHops_of_inOrder (h : ReadablePairs scenarios) {source : Scenario} {key : String}
    (hfind : (groupOf letters scenarios key).find?
      (inOrder letters (displaySdks letters summarySdks key)) = some source) :
    SameHops letters (pairwiseGroup letters scenarios summarySdks key) := by
  obtain ⟨hin, hpair, rfl⟩ := mem_groupOf.mp (List.mem_of_find?_eq_some hfind)
  have horder := List.find?_some hfind
  obtain ⟨x, y, hxy, hcases⟩ := display_cases summarySdks h hin hpair
  have hdisplay : displaySdks letters summarySdks (pairKey letters source.sdks) =
      source.sdks.map letters.toLowerCase := by
    rw [hxy, List.map_cons, List.map_singleton, ← hxy]
    rcases hcases with hsame | hswap
    · exact hsame
    · rw [hswap, inOrder, hxy] at horder
      simp only [List.getD_cons_zero, List.getD_cons_succ, Bool.and_eq_true,
        decide_eq_true_eq] at horder
      rw [hswap, horder.1]
  obtain ⟨hops, hhops⟩ := exists_parseEdgeStrings (h.accepted source hin hpair)
  refine ⟨source, hops, ?_, hhops, ?_⟩
  · rw [pairwiseGroup, sourceOf, hfind]
    rfl
  · have hedges : (pairwiseGroup letters scenarios summarySdks
        (pairKey letters source.sdks)).edges = source.edges.getD [] := by
      rw [pairwiseGroup, edgesOf, sourceOf, hfind]
      rfl
    have hmapped := parseEdgeStrings_map letters.toLowerCase hhops
    rw [← hdisplay] at hmapped
    rw [hedges]
    exact hmapped

/-- A source listed the other way round is flipped. -/
theorem sameHops_iff_of_flipped (h : ReadablePairs scenarios) {source : Scenario} {key : String}
    (hhead : (groupOf letters scenarios key).head? = some source)
    (hfind : (groupOf letters scenarios key).find?
      (inOrder letters (displaySdks letters summarySdks key)) = none) :
    SameHops letters (pairwiseGroup letters scenarios summarySdks key) ↔
      ∀ edge ∈ source.edges.getD [], Flippable edge := by
  have hmem := List.mem_of_mem_head? hhead
  obtain ⟨hin, hpair, rfl⟩ := mem_groupOf.mp hmem
  have horder : inOrder letters
      (displaySdks letters summarySdks (pairKey letters source.sdks)) source = false := by
    simpa using List.find?_eq_none.mp hfind source hmem
  obtain ⟨x, y, hxy, hcases⟩ := display_cases summarySdks h hin hpair
  obtain ⟨hops, hhops⟩ := exists_parseEdgeStrings (h.accepted source hin hpair)
  have hdisplay : displaySdks letters summarySdks (pairKey letters source.sdks) =
      [letters.toLowerCase y, letters.toLowerCase x] := by
    refine hcases.resolve_left fun hsame => ?_
    rw [hsame, inOrder, hxy] at horder
    simp at horder
  have hne : letters.toLowerCase x ≠ letters.toLowerCase y := by
    intro heq
    rw [hdisplay, inOrder, hxy] at horder
    simp [heq] at horder
  have hsource : sourceOf letters (displaySdks letters summarySdks (pairKey letters source.sdks))
      (groupOf letters scenarios (pairKey letters source.sdks)) = some source := by
    rw [sourceOf, hfind, hhead]
    rfl
  have hedges : (pairwiseGroup letters scenarios summarySdks
      (pairKey letters source.sdks)).edges = (source.edges.getD []).map flipEdge := by
    rw [pairwiseGroup, edgesOf, hsource, hfind, hdisplay, Option.map_some, hxy]
    simp [hne]
  rw [hxy] at hhops
  rw [← parseEdgeStrings_flipEdge letters.toLowerCase hne hhops, ← hedges, ← hdisplay]
  constructor
  · rintro ⟨source', hops', hsource', hhops', hread⟩
    obtain rfl : source = source' := Option.some.inj (hsource.symm.trans hsource')
    obtain rfl : hops = hops' := by
      rw [hxy] at hhops'
      exact Except.ok.inj (hhops.symm.trans hhops')
    exact hread
  · exact fun hread => ⟨source, hops, hsource, by rw [hxy]; exact hhops, hread⟩

/-- The groups partition the pairs, and show the hops of their sources, if and only if
edges are flipped only where they can be. -/
theorem pairwiseGroups_correct_iff (h : ReadablePairs scenarios) :
    (PartitionsPairs letters scenarios (pairwiseGroups letters scenarios summarySdks) ∧
        ∀ group ∈ pairwiseGroups letters scenarios summarySdks, SameHops letters group) ↔
      FlipsCleanly letters scenarios summarySdks := by
  rw [and_iff_right (pairwiseGroups_partitionsPairs h)]
  constructor
  · intro hgroups scenario hin hpair hfirst hnone
    have hhops := hgroups _ (mem_pairwiseGroups.mpr ⟨scenario, hin, hpair, rfl⟩)
    refine (sameHops_iff_of_flipped h ?_ ?_).mp hhops
    · rw [groupOf_eq_filter, List.head?_filter, hfirst]
    · rw [List.find?_eq_none]
      intro other hother
      rw [groupOf_eq_filter, List.mem_filter] at hother
      simp [hnone other hother.1 hother.2]
  · intro hclean group hgroup
    obtain ⟨scenario, hin, hpair, rfl⟩ := mem_pairwiseGroups.mp hgroup
    cases hfind : (groupOf letters scenarios (pairKey letters scenario.sdks)).find?
        (inOrder letters (displaySdks letters summarySdks (pairKey letters scenario.sdks))) with
    | some source => exact sameHops_of_inOrder h hfind
    | none =>
        have hmember : scenario ∈ groupOf letters scenarios (pairKey letters scenario.sdks) :=
          mem_groupOf.mpr ⟨hin, hpair, rfl⟩
        obtain ⟨first, rest, hgroupOf⟩ := List.exists_cons_of_ne_nil (List.ne_nil_of_mem hmember)
        have hhead : (groupOf letters scenarios (pairKey letters scenario.sdks)).head? =
            some first := by rw [hgroupOf, List.head?_cons]
        obtain ⟨hfirst, hfirstPair, hkey⟩ := mem_groupOf.mp (List.mem_of_mem_head? hhead)
        rw [sameHops_iff_of_flipped h hhead hfind]
        have hsame : samePair letters first = samePair letters scenario := by
          funext other
          rw [samePair, samePair, hkey]
        refine hclean first hfirst hfirstPair ?_ ?_
        · rw [hsame, ← List.head?_filter]
          exact hhead
        · intro other hother hpairs
          rw [hkey]
          rw [hsame] at hpairs
          have hmem : other ∈ groupOf letters scenarios (pairKey letters scenario.sdks) :=
            List.mem_filter.mpr ⟨hother, hpairs⟩
          simpa using List.find?_eq_none.mp hfind other hmem

/-- A pair that is only listed the other way round. -/
def reversedPair (edge : String) : List Scenario :=
  [{ sdks := ["go_v10", "current"], edges := some [edge] }]

theorem readablePairs_reversedPair {edge : String}
    (h : ∃ hop, parseEdgeString ["go_v10", "current"] edge = .ok hop) :
    ReadablePairs (reversedPair edge) where
  noComma := by
    intro scenario hin _ name hname
    rw [reversedPair, List.mem_singleton] at hin
    subst hin
    simp only [List.mem_cons, List.not_mem_nil, or_false] at hname
    rcases hname with rfl | rfl
    · decide
    · decide
  accepted := by
    intro scenario hin _ edge' hedge
    rw [reversedPair, List.mem_singleton] at hin
    subst hin
    rw [Option.getD_some, List.mem_singleton] at hedge
    exact hedge ▸ h

theorem pairwiseGroups_correct_iff_reversedPair :
    (PartitionsPairs .plain (reversedPair "0->1")
          (pairwiseGroups .plain (reversedPair "0->1") ["current", "go_v10"]) ∧
        ∀ group ∈ pairwiseGroups .plain (reversedPair "0->1") ["current", "go_v10"],
          SameHops .plain group) ↔
      FlipsCleanly .plain (reversedPair "0->1") ["current", "go_v10"] :=
  pairwiseGroups_correct_iff (readablePairs_reversedPair
    ⟨("go_v10", "current"), by decide +kernel⟩)

theorem not_flippable_spaced : ¬ Flippable "0 -> 1" := by
  have hread : Traversal.readIndices "0 -> 1" = .ok (((0 : ℕ) : Int), ((1 : ℕ) : Int)) := by
    decide +kernel
  rw [← readIndices_flipEdge hread (by decide) (by decide)]
  decide +kernel

/-- Agents stand in display order by their ranks. -/
theorem displaySdks_sorted {key x y : String}
    (h : displaySdks letters summarySdks key = [x, y]) :
    rank letters summarySdks x ≤ rank letters summarySdks y := by
  have hsorted := List.pairwise_mergeSort
    (fun a b c (hab : decide (rank letters summarySdks a ≤ rank letters summarySdks b) = true)
      hbc => by
        simp only [decide_eq_true_eq] at *
        exact le_trans hab hbc)
    (fun a b => by simpa using le_total _ _) (keyParts key)
  rw [displaySdks] at h
  rw [h] at hsorted
  simpa using hsorted

theorem displaySdks_spaced : displaySdks .plain ["current", "go_v10"]
    (pairKey .plain ["go_v10", "current"]) = ["current", "go_v10"] := by
  have hcurrent : LetterCase.plain.toLowerCase "current" = "current" := by decide +kernel
  have hgo : LetterCase.plain.toLowerCase "go_v10" = "go_v10" := by decide +kernel
  have hperm : (["go_v10", "current"].map LetterCase.plain.toLowerCase).Perm
      (displaySdks .plain ["current", "go_v10"] (pairKey .plain ["go_v10", "current"])) :=
    displaySdks_perm rfl (by decide)
  rw [List.map_cons, List.map_singleton, hcurrent, hgo] at hperm
  refine (List.perm_pair.mp hperm.symm).resolve_left fun hsame => ?_
  have hrank := displaySdks_sorted hsame
  revert hrank
  decide +kernel

/-- With spaces around the arrow the indices keep their old order. -/
theorem spaced_edge_not_flipped :
    ReadablePairs (reversedPair "0 -> 1") ∧
      ¬ (PartitionsPairs .plain (reversedPair "0 -> 1")
            (pairwiseGroups .plain (reversedPair "0 -> 1") ["current", "go_v10"]) ∧
          ∀ group ∈ pairwiseGroups .plain (reversedPair "0 -> 1") ["current", "go_v10"],
            SameHops .plain group) := by
  have hreadable : ReadablePairs (reversedPair "0 -> 1") :=
    readablePairs_reversedPair ⟨("go_v10", "current"), by decide +kernel⟩
  refine ⟨hreadable, fun h => ?_⟩
  have hhops := h.2 _ (mem_pairwiseGroups.mpr ⟨_, List.mem_cons_self, by decide +kernel, rfl⟩)
  have hgroup : groupOf .plain (reversedPair "0 -> 1") (pairKey .plain ["go_v10", "current"]) =
      reversedPair "0 -> 1" := by
    simp [groupOf, reversedPair, isPair]
  have hnone : (reversedPair "0 -> 1").find? (inOrder .plain ["current", "go_v10"]) = none := by
    decide +kernel
  have hflips := (sameHops_iff_of_flipped hreadable (by rw [hgroup]; rfl)
    (by rw [hgroup, displaySdks_spaced]; exact hnone)).mp hhops
  exact not_flippable_spaced (hflips _ List.mem_cons_self)

end Groups

end A2aItk.Dashboard
