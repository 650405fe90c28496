import A2aItk.Python.Joined
import A2aItk.Scenarios.Declarations
import Mathlib.Data.List.Nodup

/-!
# Names of expanded scenarios

A name tells the variant and the peer it was built for, and the transports that were
left. The names of a declaration are distinct unless a peer occurs twice or what it
shares with two transport sets is the same.
-/

namespace A2aItk.Scenarios

open Python

section Products

variable {β τ ς κ : Type*} {F : β → τ → ς → List κ} {ofBehavior : κ → β}
  {ofStreaming : κ → ς}

/-- The entries of a product whose first and last coordinate they carry are distinct
where they are for each pair of these. -/
theorem nodup_product_iff {bs : List β} {ts : List τ} {ss : List ς} (hbs : bs.Nodup)
    (hts : ts.Nodup) (hss : ss.Nodup)
    (hcarry : ∀ b t s, ∀ k ∈ F b t s, ofBehavior k = b ∧ ofStreaming k = s) :
    (bs.flatMap fun b => ts.flatMap fun t => ss.flatMap fun s => F b t s).Nodup ↔
      ∀ b ∈ bs, ∀ t ∈ ts, ∀ s ∈ ss,
        (F b t s).Nodup ∧ ∀ t' ∈ ts, t' ≠ t → (F b t s).Disjoint (F b t' s) := by
  have hbehaviors : bs.Pairwise (Function.onFun List.Disjoint
      fun b => ts.flatMap fun t => ss.flatMap fun s => F b t s) := by
    apply hbs.imp
    intro b b' hne k hk hk'
    simp only [List.mem_flatMap] at hk hk'
    obtain ⟨t, -, s, -, hk⟩ := hk
    obtain ⟨t', -, s', -, hk'⟩ := hk'
    exact hne ((hcarry b t s k hk).1.symm.trans (hcarry b' t' s' k hk').1)
  have hstreaming (b : β) (t : τ) : ss.Pairwise (Function.onFun List.Disjoint (F b t)) := by
    apply hss.imp
    intro s s' hne k hk hk'
    exact hne ((hcarry b t s k hk).2.symm.trans (hcarry b t s' k hk').2)
  simp only [List.nodup_flatMap, hbehaviors, hstreaming, and_true]
  refine forall₂_congr fun b _ => ?_
  constructor
  · rintro ⟨hinner, houter⟩ t ht s hs
    refine ⟨hinner t ht s hs, fun t' ht' hne k hk hk' => ?_⟩
    have hsymm : Std.Symm (Function.onFun List.Disjoint
        fun t => ss.flatMap fun s => F b t s) := ⟨fun _ _ h => h.symm⟩
    have hdisjoint := houter.forall ht' ht hne
    exact hdisjoint (List.mem_flatMap.mpr ⟨s, hs, hk'⟩) (List.mem_flatMap.mpr ⟨s, hs, hk⟩)
  · intro h
    refine ⟨fun t ht s hs => (h t ht s hs).1, ?_⟩
    apply hts.imp_of_mem
    intro t t' ht ht' hne k hk hk'
    obtain ⟨s, hs, hk⟩ := List.mem_flatMap.mp hk
    obtain ⟨s', hs', hk'⟩ := List.mem_flatMap.mp hk'
    have heq : s' = s := (hcarry b t' s' k hk').2.symm.trans (hcarry b t s k hk).2
    exact (h t ht s hs).2 t' ht' (Ne.symm hne) hk (heq ▸ hk')

end Products

section Injective

variable (scenario : TraversalScenarioV1)

/-- A label is read back from the name it was put into. -/
theorem labelled_injective (base : String) : Function.Injective (labelled base) := by
  intro label label' h
  unfold labelled at h
  dsimp only at h
  by_cases hparts : (Text.split peerPlaceholder.toList base.toList).length > 1
  · rw [if_pos hparts, if_pos hparts] at h
    apply String.toList_inj.mp
    exact intercalate_separator_inj hparts (String.ofList_injective h)
  · rw [if_neg hparts, if_neg hparts] at h
    apply String.toList_inj.mp
    have hlist := congrArg String.toList h
    simpa [toString] using hlist

/-- What a set of transports is called tells the set. -/
theorem joined_transports_injective :
    Function.Injective fun ts : List Transport => "+".intercalate (ts.map Transport.value) := by
  have hplus : ∀ ts : List Transport, ∀ s ∈ ts.map Transport.value, '+' ∉ s.toList := by
    intro ts s hs
    obtain ⟨t, -, rfl⟩ := List.mem_map.mp hs
    cases t <;> decide
  have hnil : ∀ ts : List Transport, "+".intercalate (ts.map Transport.value) = "" → ts = [] := by
    intro ts h
    cases ts with
    | nil => rfl
    | cons t rest =>
        have hempty : (Transport.value t).toList = [] := by
          have hlist := congrArg String.toList h
          cases rest with
          | nil => simpa using hlist
          | cons t' others =>
              rw [List.map_cons, List.map_cons, String.intercalate_cons_cons] at hlist
              simp at hlist
        cases t <;> simp [Transport.value] at hempty
  intro ts ts' h
  by_cases hts : ts = []
  · subst hts
    exact (hnil ts' h.symm).symm
  · by_cases hts' : ts' = []
    · subst hts'
      exact hnil ts h
    · apply List.map_injective_iff.mpr transport_value_injective
      exact intercalate_char_inj rfl (by simpa using hts) (by simpa using hts') (hplus ts)
        (hplus ts') h

/-- What tells two emitted scenarios of one declaration apart. -/
structure Cell where
  behavior : Behavior
  streaming : Bool
  used : List Transport
  peerLabel : Option String

/-- The name of a cell. -/
def Cell.name (cell : Cell) : String :=
  nameOf scenario cell.behavior cell.used cell.streaming (multiAxes scenario) cell.peerLabel

/-- The name of a cell before its axes are appended. -/
def Cell.base (cell : Cell) : String :=
  match cell.peerLabel with
  | some label => labelled scenario.name label
  | none => scenario.name

/-- What the name says of the axes that have several values. -/
def Cell.suffixes (cell : Cell) : List String :=
  (if (multiAxes scenario).behavior then [cell.behavior.value] else []) ++
  (if (multiAxes scenario).transports then
    ["+".intercalate (cell.used.map Transport.value)] else []) ++
  (if (multiAxes scenario).streaming then
    [if cell.streaming then "streaming" else "non-streaming"] else [])

theorem Cell.name_eq (cell : Cell) :
    cell.name scenario = " - ".intercalate (cell.base scenario :: cell.suffixes scenario) := by
  unfold Cell.name nameOf Cell.base Cell.suffixes
  simp only [List.cons_append, List.append_assoc]
  rfl

theorem Cell.length_suffixes (cell cell' : Cell) :
    (cell.suffixes scenario).length = (cell'.suffixes scenario).length := by
  unfold Cell.suffixes
  split <;> split <;> split <;> rfl

theorem not_space_in_joined (ts : List Transport) :
    ' ' ∉ ("+".intercalate (ts.map Transport.value)).toList := by
  induction ts with
  | nil => simp
  | cons t rest ih =>
      have hvalue : ' ' ∉ t.value.toList := by cases t <;> decide
      cases rest with
      | nil => simpa using hvalue
      | cons t' others =>
          rw [List.map_cons, List.map_cons, String.intercalate_cons_cons, String.toList_append,
            String.toList_append, ← List.map_cons, List.mem_append, List.mem_append]
          rintro ((h | h) | h)
          · exact hvalue h
          · simp at h
          · exact ih h

theorem Cell.not_space_in_suffixes (cell : Cell) :
    ∀ s ∈ cell.suffixes scenario, ' ' ∉ s.toList := by
  intro s hs
  unfold Cell.suffixes at hs
  rw [List.mem_append, List.mem_append] at hs
  obtain (hs | hs) | hs := hs
  · split at hs
    · obtain rfl := List.mem_singleton.mp hs
      cases cell.behavior <;> decide
    · simp at hs
  · split at hs
    · obtain rfl := List.mem_singleton.mp hs
      exact not_space_in_joined cell.used
    · simp at hs
  · split at hs
    · obtain rfl := List.mem_singleton.mp hs
      cases cell.streaming <;> decide
    · simp at hs

variable {scenario}

/-- A name tells the label it was built for and the axes that vary. -/
theorem Cell.name_inj {cell cell' : Cell}
    (hlabel : cell.peerLabel.isSome = cell'.peerLabel.isSome)
    (h : cell.name scenario = cell'.name scenario) :
    cell.peerLabel = cell'.peerLabel ∧
      (1 < scenario.behaviorVariants.length → cell.behavior = cell'.behavior) ∧
      (1 < scenario.transportVariants.length → cell.used = cell'.used) ∧
      (1 < scenario.streamingOptions.length → cell.streaming = cell'.streaming) := by
  rw [Cell.name_eq, Cell.name_eq] at h
  obtain ⟨hbase, hsuffixes⟩ := intercalate_suffixes_inj (c := ' ')
    (show (" - " : String).toList = [' ', '-'] ++ [' '] from rfl)
    (Cell.length_suffixes scenario cell cell')
    (Cell.not_space_in_suffixes scenario cell) (Cell.not_space_in_suffixes scenario cell') h
  constructor
  · unfold Cell.base at hbase
    cases hl : cell.peerLabel with
    | none =>
        cases hl' : cell'.peerLabel with
        | none => rfl
        | some label' => simp [hl, hl'] at hlabel
    | some label =>
        cases hl' : cell'.peerLabel with
        | none => simp [hl, hl'] at hlabel
        | some label' =>
            simp only [hl, hl'] at hbase
            rw [labelled_injective scenario.name hbase]
  · unfold Cell.suffixes at hsuffixes
    have hlengths : ∀ {c : Bool} {a b : String},
        (if c then [a] else []).length = (if c then [b] else []).length := by
      intro c a b
      cases c <;> rfl
    obtain ⟨hfront, hstreaming⟩ := List.append_inj' hsuffixes hlengths
    obtain ⟨hbehavior, htransports⟩ := List.append_inj hfront hlengths
    refine ⟨fun hmulti => ?_, fun hmulti => ?_, fun hmulti => ?_⟩
    · have hvalue : cell.behavior.value = cell'.behavior.value := by
        simpa [multiAxes, hmulti] using hbehavior
      revert hvalue
      cases cell.behavior <;> cases cell'.behavior <;> decide
    · apply joined_transports_injective
      simpa [multiAxes, hmulti] using htransports
    · have hvalue : (if cell.streaming then "streaming" else "non-streaming") =
          if cell'.streaming then "streaming" else "non-streaming" := by
        simpa [multiAxes, hmulti] using hstreaming
      revert hvalue
      cases cell.streaming <;> cases cell'.streaming <;> decide

end Injective

section Cells

variable (d : TraversalScenarioV1) (matrix : Matrix) (sutSdk : Option String)
  (known : KnownFailures)

/-- The rules leave enough of a group to run. -/
def survives (v : Variant) (group : Group) : Bool :=
  match restrictToAvailable group.sdks (resolvedTopology d) d.edges
      (applyExclusions group.sdks known group.used v.behavior v.streaming sutSdk).1 minAgents with
  | .ok none => false
  | _ => true

/-- The groups of a variant; none if they cannot be formed. -/
def foundGroups (transports : List Transport) : List Group :=
  match groups d matrix transports sutSdk with
  | .ok found => found
  | .error _ => []

/-- The cell of a group. -/
def cellOf (v : Variant) (group : Group) : Cell :=
  ⟨v.behavior, v.streaming, group.used, group.peerLabel⟩

/-- The cells a variant is emitted for. -/
def cells (v : Variant) : List Cell :=
  ((foundGroups d matrix sutSdk v.transports).filter (survives d sutSdk known v)).map (cellOf v)

/-- The transports a cell runs over. -/
def usedBy (transports : List Transport) : Option String → List Transport
  | some peer => intersect matrix peer transports
  | none => transports

variable {d matrix sutSdk known} {v : Variant} {report : ResolutionReport}

theorem names_expandGroup {group : Group}
    (h : expandGroup d sutSdk known v group = .ok report) :
    report.scenarios.map ResolvedScenario.name =
      (([group].filter (survives d sutSdk known v)).map (cellOf v)).map (Cell.name d) := by
  obtain ⟨-, ⟨hnone, -, why, rfl⟩ | ⟨sdks, edges, hsome, rfl⟩⟩ := expandGroup_cases h
  · have hgone : survives d sutSdk known v group = false := by
      unfold survives
      rw [hnone]
    simp [hgone]
  · have hstays : survives d sutSdk known v group = true := by
      unfold survives
      rw [hsome]
    simp only [List.filter_cons, hstays, if_true, List.filter_nil, List.map_cons, List.map_nil]
    rfl

/-- The scenarios of a variant are named after its cells. -/
theorem names_expandVariant (h : expandVariant d matrix sutSdk known v = .ok report) :
    report.scenarios.map ResolvedScenario.name =
      (cells d matrix sutSdk known v).map (Cell.name d) := by
  obtain ⟨found, reports, hfound, hreports, rfl⟩ := expandVariant_eq_ok_iff.mp h
  have hcells : foundGroups d matrix sutSdk v.transports = found := by
    unfold foundGroups
    rw [hfound]
  rw [cells, hcells, ResolutionReport.join_scenarios]
  clear hfound hcells h
  induction hreports with
  | nil => rfl
  | @cons group report found reports hgroup _ ih =>
      rw [List.flatMap_cons, List.map_append, names_expandGroup hgroup, ih, ← List.map_append,
        ← List.map_append, ← List.filter_append, List.singleton_append]

/-- The names a declaration gives are those of its cells. -/
theorem names_expand (h : expand d matrix sutSdk known = .ok report) :
    report.scenarios.map ResolvedScenario.name =
      ((variants d).flatMap (cells d matrix sutSdk known)).map (Cell.name d) := by
  obtain ⟨reports, hreports, hjoin⟩ := bind_eq_ok_iff.mp h
  obtain rfl := Except.ok.inj hjoin
  have hvariants := mapM_eq_ok_iff.mp hreports
  rw [ResolutionReport.join_scenarios]
  clear hreports hjoin h
  generalize variants d = vs at hvariants ⊢
  induction hvariants with
  | nil => rfl
  | @cons v report rest reports hv _ ih =>
      rw [List.flatMap_cons, List.flatMap_cons, List.map_append, List.map_append,
        names_expandVariant hv, ih]

theorem mem_variants {v : Variant} :
    v ∈ variants d ↔ v.behavior ∈ d.behaviorVariants ∧ v.transports ∈ d.transportVariants ∧
      v.streaming ∈ d.streamingOptions := by
  obtain ⟨b, t, s⟩ := v
  simp only [variants, List.mem_flatMap, List.mem_map, Variant.mk.injEq]
  constructor
  · rintro ⟨b, hb, t, ht, s, hs, rfl, rfl, rfl⟩
    exact ⟨hb, ht, hs⟩
  · rintro ⟨hb, ht, hs⟩
    exact ⟨b, hb, t, ht, s, hs, rfl, rfl, rfl⟩

theorem flatMap_variants {α : Type} (F : Variant → List α) :
    (variants d).flatMap F = d.behaviorVariants.flatMap fun b => d.transportVariants.flatMap
      fun t => d.streamingOptions.flatMap fun s => F ⟨b, t, s⟩ := by
  simp only [variants, List.flatMap_assoc, List.flatMap_map]

/-- What a group runs over follows from its label. -/
theorem mem_foundGroups {transports : List Transport} {group : Group}
    (h : group ∈ foundGroups d matrix sutSdk transports) :
    group.used = usedBy matrix transports group.peerLabel ∧
      (group.peerLabel.isSome ↔ d.expand = .perPeer) := by
  unfold foundGroups at h
  split at h
  · rename_i found hfound
    unfold groups at hfound
    obtain ⟨ids, -, hfound⟩ := bind_eq_ok_iff.mp hfound
    cases hexpand : d.expand with
    | together =>
        simp only [hexpand] at hfound
        obtain rfl := Except.ok.inj hfound
        obtain rfl := List.mem_singleton.mp h
        simp [usedBy]
    | perPeer =>
        simp only [hexpand] at hfound
        obtain rfl := Except.ok.inj hfound
        obtain ⟨peer, -, hpeer⟩ := List.mem_filterMap.mp h
        split at hpeer
        · cases hpeer
        · obtain rfl := Option.some.inj hpeer
          simp [usedBy]
  · cases h

theorem eq_of_multi {α : Type*} {l : List α} {a b : α} (ha : a ∈ l) (hb : b ∈ l)
    (h : 1 < l.length → a = b) : a = b := by
  by_cases hl : 1 < l.length
  · exact h hl
  · obtain ⟨c, rfl⟩ : ∃ c, l = [c] := by
      apply List.length_eq_one_iff.mp
      have := List.length_pos_of_mem ha
      omega
    rw [List.mem_singleton.mp ha, List.mem_singleton.mp hb]

/-- A name tells the cell of a declaration. -/
theorem cell_name_inj {cell cell' : Cell}
    (hcell : cell ∈ (variants d).flatMap (cells d matrix sutSdk known))
    (hcell' : cell' ∈ (variants d).flatMap (cells d matrix sutSdk known))
    (h : cell.name d = cell'.name d) : cell = cell' := by
  obtain ⟨v, hv, hcell⟩ := List.mem_flatMap.mp hcell
  obtain ⟨v', hv', hcell'⟩ := List.mem_flatMap.mp hcell'
  obtain ⟨group, hgroup, rfl⟩ := List.mem_map.mp hcell
  obtain ⟨group', hgroup', rfl⟩ := List.mem_map.mp hcell'
  obtain ⟨hused, hsome⟩ := mem_foundGroups (List.mem_filter.mp hgroup).1
  obtain ⟨hused', hsome'⟩ := mem_foundGroups (List.mem_filter.mp hgroup').1
  obtain ⟨hb, ht, hs⟩ := mem_variants.mp hv
  obtain ⟨hb', ht', hs'⟩ := mem_variants.mp hv'
  have hlabels : group.peerLabel.isSome = group'.peerLabel.isSome := by
    rw [Bool.eq_iff_iff, hsome, hsome']
  obtain ⟨hlabel, hbehavior, htransports, hstreaming⟩ := Cell.name_inj hlabels h
  have hlabel : group.peerLabel = group'.peerLabel := hlabel
  have husedEq : group.used = group'.used := by
    by_cases hmulti : 1 < d.transportVariants.length
    · exact htransports hmulti
    · have heq := eq_of_multi ht ht' fun hm => absurd hm hmulti
      rw [hused, hused', hlabel, heq]
  rw [cellOf, cellOf, eq_of_multi hb hb' hbehavior, eq_of_multi hs hs' hstreaming, husedEq, hlabel]

/-- The names of a declaration are distinct as its cells are. -/
theorem names_nodup_iff (h : expand d matrix sutSdk known = .ok report) :
    (report.scenarios.map ResolvedScenario.name).Nodup ↔
      ((variants d).flatMap (cells d matrix sutSdk known)).Nodup := by
  rw [names_expand h]
  constructor
  · exact List.Nodup.of_map _
  · intro hnodup
    exact hnodup.map_on fun cell hcell cell' hcell' => cell_name_inj hcell hcell'

end Cells

section Distinct

variable {d : TraversalScenarioV1} {matrix : Matrix} {sutSdk : Option String}
  {known : KnownFailures} {report : ResolutionReport} {v : Variant}

/-- The group of one peer. -/
def peerGroup (d : TraversalScenarioV1) (matrix : Matrix) (transports : List Transport)
    (peer : String) : Group :=
  ⟨sut d ++ [peer], intersect matrix peer transports, some peer⟩

/-- A variant has something to run against a peer, and the rules leave it. -/
def emits (d : TraversalScenarioV1) (matrix : Matrix) (sutSdk : Option String)
    (known : KnownFailures) (v : Variant) (peer : String) : Bool :=
  !(intersect matrix peer v.transports).isEmpty &&
    survives d sutSdk known v (peerGroup d matrix v.transports peer)

/-- Run peer by peer, a declaration asks for the same peers under all transports. -/
theorem peerIds_perPeer (hexpand : d.expand = .perPeer) (transports transports' : List Transport) :
    peerIds d matrix transports sutSdk = peerIds d matrix transports' sutSdk := by
  unfold peerIds ownLines
  simp only [hexpand, decide_true, Bool.true_or, Bool.and_true, if_true]

theorem cells_perPeer (hexpand : d.expand = .perPeer) {ids : List String}
    (hids : peerIds d matrix v.transports sutSdk = .ok ids) :
    cells d matrix sutSdk known v = (ids.filter (emits d matrix sutSdk known v)).map fun peer =>
      ⟨v.behavior, v.streaming, intersect matrix peer v.transports, some peer⟩ := by
  have hfound : foundGroups d matrix sutSdk v.transports = ids.filterMap fun peer =>
      if (intersect matrix peer v.transports).isEmpty then none
      else some (peerGroup d matrix v.transports peer) := by
    unfold foundGroups groups
    rw [hids, ok_bind]
    simp only [hexpand]
    rfl
  rw [cells, hfound]
  clear hfound hids
  induction ids with
  | nil => rfl
  | cons peer rest ih =>
      by_cases hempty : (intersect matrix peer v.transports).isEmpty = true
      · have hgone : emits d matrix sutSdk known v peer = false := by simp [emits, hempty]
        rw [List.filterMap_cons_none (by simp [hempty]), List.filter_cons_of_neg (by simp [hgone]),
          ih]
      · rw [List.filterMap_cons_some (b := peerGroup d matrix v.transports peer) (by simp [hempty])]
        by_cases hstays : survives d sutSdk known v (peerGroup d matrix v.transports peer) = true
        · have hemits : emits d matrix sutSdk known v peer = true := by
            simp [emits, hempty, hstays]
          rw [List.filter_cons_of_pos hstays, List.filter_cons_of_pos hemits, List.map_cons,
            List.map_cons, ih]
          rfl
        · have hgone : emits d matrix sutSdk known v peer = false := by simp [emits, hstays]
          rw [List.filter_cons_of_neg hstays, List.filter_cons_of_neg (by simp [hgone]), ih]

theorem emits_congr {peer : String} {b : Behavior} {s : Bool} {t t' : List Transport}
    (h : intersect matrix peer t' = intersect matrix peer t) :
    emits d matrix sutSdk known ⟨b, t', s⟩ peer = emits d matrix sutSdk known ⟨b, t, s⟩ peer := by
  unfold emits survives peerGroup
  rw [h]

/-- Peer by peer, cells are distinct if no peer that is emitted stands twice. -/
theorem cells_nodup_perPeer (hexpand : d.expand = .perPeer) {ids : List String}
    (hids : peerIds d matrix v.transports sutSdk = .ok ids) :
    (cells d matrix sutSdk known v).Nodup ↔
      ∀ p ∈ ids, emits d matrix sutSdk known v p = true → ids.count p = 1 := by
  have hinj : Function.Injective fun peer : String => (⟨v.behavior, v.streaming,
      intersect matrix peer v.transports, some peer⟩ : Cell) := by
    intro p q h
    exact Option.some.inj (congrArg Cell.peerLabel h)
  rw [cells_perPeer hexpand hids, List.nodup_map_iff hinj, List.nodup_iff_count_eq_one]
  constructor
  · intro h p hp hemits
    rw [← List.count_filter hemits]
    exact h p (List.mem_filter.mpr ⟨hp, hemits⟩)
  · intro h p hp
    obtain ⟨hp, hemits⟩ := List.mem_filter.mp hp
    rw [List.count_filter hemits]
    exact h p hp hemits

/-- Transport sets share no cell if every such peer tells them apart. -/
theorem cells_disjoint_perPeer (hexpand : d.expand = .perPeer) {ids : List String}
    {b : Behavior} {s : Bool} {t t' : List Transport}
    (hids : peerIds d matrix t sutSdk = .ok ids) :
    (cells d matrix sutSdk known ⟨b, t, s⟩).Disjoint (cells d matrix sutSdk known ⟨b, t', s⟩) ↔
      ∀ p ∈ ids, emits d matrix sutSdk known ⟨b, t, s⟩ p = true →
        intersect matrix p t' ≠ intersect matrix p t := by
  have hids' : peerIds d matrix t' sutSdk = .ok ids := by
    rw [peerIds_perPeer hexpand t' t, hids]
  rw [cells_perPeer (v := ⟨b, t, s⟩) hexpand hids, cells_perPeer (v := ⟨b, t', s⟩) hexpand hids']
  constructor
  · intro h p hp hemits heq
    have hemits' : emits d matrix sutSdk known ⟨b, t', s⟩ p = true := by
      rw [emits_congr heq, hemits]
    apply h (List.mem_map.mpr ⟨p, List.mem_filter.mpr ⟨hp, hemits⟩, rfl⟩)
    rw [← heq]
    exact List.mem_map.mpr ⟨p, List.mem_filter.mpr ⟨hp, hemits'⟩, rfl⟩
  · intro h cell hcell hcell'
    obtain ⟨p, hp, rfl⟩ := List.mem_map.mp hcell
    obtain ⟨q, -, heq⟩ := List.mem_map.mp hcell'
    obtain ⟨hp, hemits⟩ := List.mem_filter.mp hp
    obtain ⟨-, -, hused, hlabel⟩ := Cell.mk.inj heq
    obtain rfl := Option.some.inj hlabel
    exact h q hp hemits hused

/-- With all peers together there is one cell for each transport set. -/
theorem cells_together (hexpand : d.expand = .together) :
    (cells d matrix sutSdk known v).Nodup ∧
      ∀ cell ∈ cells d matrix sutSdk known v, cell.used = v.transports := by
  constructor
  · have hlen : (foundGroups d matrix sutSdk v.transports).length ≤ 1 := by
      unfold foundGroups
      split
      · rename_i found hfound
        unfold groups at hfound
        obtain ⟨ids, -, hfound⟩ := bind_eq_ok_iff.mp hfound
        simp only [hexpand] at hfound
        obtain rfl := Except.ok.inj hfound
        exact le_rfl
      · exact Nat.zero_le 1
    have hcells : (cells d matrix sutSdk known v).length ≤ 1 := by
      rw [cells, List.length_map]
      exact (List.length_filter_le _ _).trans hlen
    generalize cells d matrix sutSdk known v = l at hcells
    cases l with
    | nil => exact List.nodup_nil
    | cons cell rest =>
        obtain rfl : rest = [] := by simpa using hcells
        exact List.nodup_singleton cell
  · intro cell hcell
    obtain ⟨group, hgroup, rfl⟩ := List.mem_map.mp hcell
    obtain ⟨hused, hsome⟩ := mem_foundGroups (List.mem_filter.mp hgroup).1
    have hnone : group.peerLabel = none := by simpa [hexpand] using hsome
    change group.used = v.transports
    rw [hused, hnone]
    rfl

/-- No peer an expansion runs occurs twice, and none shares with two transport sets the
same transports. -/
def PeersTellTransports (d : TraversalScenarioV1) (matrix : Matrix) (sutSdk : Option String)
    (known : KnownFailures) : Prop :=
  ∀ v ∈ variants d, ∀ ids, peerIds d matrix v.transports sutSdk = .ok ids →
    ∀ p ∈ ids, emits d matrix sutSdk known v p = true → ids.count p = 1 ∧
      ∀ t ∈ d.transportVariants, t ≠ v.transports →
        intersect matrix p t ≠ intersect matrix p v.transports

/-- The cells are distinct if every peer tells the transport sets apart. -/
theorem cells_nodup_iff (hbehaviors : d.behaviorVariants.Nodup)
    (htransports : d.transportVariants.Nodup) (hstreaming : d.streamingOptions.Nodup)
    (hids : ∀ v ∈ variants d, ∃ ids, peerIds d matrix v.transports sutSdk = .ok ids) :
    ((variants d).flatMap (cells d matrix sutSdk known)).Nodup ↔
      (d.expand = .perPeer → PeersTellTransports d matrix sutSdk known) := by
  have hcarry : ∀ b t s, ∀ cell ∈ cells d matrix sutSdk known ⟨b, t, s⟩,
      cell.behavior = b ∧ cell.streaming = s := by
    intro b t s cell hcell
    obtain ⟨group, -, rfl⟩ := List.mem_map.mp hcell
    exact ⟨rfl, rfl⟩
  rw [flatMap_variants, nodup_product_iff hbehaviors htransports hstreaming hcarry]
  constructor
  · intro h hexpand v hv ids hv_ids p hp hemits
    obtain ⟨hb, ht, hs⟩ := mem_variants.mp hv
    obtain ⟨hnodup, hdisjoint⟩ := h v.behavior hb v.transports ht v.streaming hs
    refine ⟨(cells_nodup_perPeer (v := v) hexpand hv_ids).mp hnodup p hp hemits, ?_⟩
    intro t ht' hne
    exact (cells_disjoint_perPeer hexpand hv_ids).mp (hdisjoint t ht' hne) p hp hemits
  · intro h b hb t ht s hs
    cases hexpand : d.expand with
    | together =>
        refine ⟨(cells_together hexpand).1, fun t' _ hne cell hcell hcell' => hne ?_⟩
        calc
          t' = cell.used := ((cells_together hexpand).2 cell hcell').symm
          _ = t := (cells_together hexpand).2 cell hcell
    | perPeer =>
        have hv : (⟨b, t, s⟩ : Variant) ∈ variants d := mem_variants.mpr ⟨hb, ht, hs⟩
        obtain ⟨ids, hv_ids⟩ := hids ⟨b, t, s⟩ hv
        have htells := h hexpand ⟨b, t, s⟩ hv ids hv_ids
        constructor
        · apply (cells_nodup_perPeer (v := ⟨b, t, s⟩) hexpand hv_ids).mpr
          exact fun p hp hemits => (htells p hp hemits).1
        · intro t' ht' hne
          apply (cells_disjoint_perPeer hexpand hv_ids).mpr
          exact fun p hp hemits => (htells p hp hemits).2 t' ht' hne

/-- The names of an expansion are distinct, and a declaration alone resolves, exactly
where the peers it is run against one by one tell its transport sets apart. -/
theorem names_distinct_iff (hbehaviors : d.behaviorVariants.Nodup)
    (htransports : d.transportVariants.Nodup) (hstreaming : d.streamingOptions.Nodup)
    (h : expand d matrix sutSdk known = .ok report) :
    ((report.scenarios.map ResolvedScenario.name).Nodup ↔
      (d.expand = .perPeer → PeersTellTransports d matrix sutSdk known)) ∧
    (skipReason d sutSdk = none →
      (resolveAll [.traversal d] matrix sutSdk known = .ok report ↔
        (d.expand = .perPeer → PeersTellTransports d matrix sutSdk known))) := by
  have hids : ∀ v ∈ variants d, ∃ ids, peerIds d matrix v.transports sutSdk = .ok ids := by
    intro v hv
    obtain ⟨part, hpart⟩ := exists_expandVariant h hv
    obtain ⟨found, -, hfound, -⟩ := expandVariant_eq_ok_iff.mp hpart
    obtain ⟨ids, hv_ids, -⟩ := bind_eq_ok_iff.mp hfound
    exact ⟨ids, hv_ids⟩
  have hnames := (names_nodup_iff h).trans
    (cells_nodup_iff hbehaviors htransports hstreaming hids)
  refine ⟨hnames, fun hadmitted => ?_⟩
  rw [← hnames, resolveAll_eq_ok_iff]
  have hone : resolveOne matrix sutSdk known (.traversal d) = .ok report := by
    rw [resolveOne_of_admitted hadmitted, h]
  have hjoin : ResolutionReport.join [report] = report := by
    simp [ResolutionReport.join, ResolutionReport.append]
  constructor
  · rintro ⟨-, -, -, hnodup⟩
    exact hnodup
  · intro hnodup
    exact ⟨[report], List.Forall₂.cons hone .nil, hjoin.symm, hnodup⟩

/-- Every line of the matrix, over two transport sets. -/
def everyLineTwice : TraversalScenarioV1 where
  name := "every line"
  roles := { peers := .all }
  expand := .perPeer
  behavior := some .sendMessage
  transportSets := some [[.jsonrpc, .grpc], [.jsonrpc]]
  accepted := rfl

/-- A matrix of two lines that speak what both sets ask for. -/
def twoLines : Matrix where
  rows := [{ sdk := "go", line := "v03", repo := "a2aproject/a2a-go", ref := "main",
             transports := ["jsonrpc", "grpc"] },
           { sdk := "go", line := "v10", repo := "a2aproject/a2a-go", ref := "main",
             transports := ["jsonrpc", "grpc", "http_json"] }]
  distinct := by decide

theorem every_line_names_distinct :
    ∃ report, expand everyLineTwice twoLines none {} = .ok report ∧ report.scenarios.length = 4 ∧
      (report.scenarios.map ResolvedScenario.name).Nodup := by
  have hbehaviors : everyLineTwice.behaviorVariants.Nodup := by decide
  have htransports : everyLineTwice.transportVariants.Nodup := by decide
  have hstreaming : everyLineTwice.streamingOptions.Nodup := by decide
  have hexpands : ∃ report, expand everyLineTwice twoLines none {} = .ok report ∧
      report.scenarios.length = 4 := ⟨_, rfl, by decide⟩
  obtain ⟨report, h, hfour⟩ := hexpands
  refine ⟨report, h, hfour,
    (names_distinct_iff hbehaviors htransports hstreaming h).1.mpr fun _ => ?_⟩
  intro v hv ids hids p hp _
  have hbothIds : ids = ["go_v03", "go_v10"] := by
    rcases List.mem_pair.mp hv with rfl | rfl <;> exact (Except.ok.inj hids).symm
  have htold : ∀ p ∈ ["go_v03", "go_v10"],
      intersect twoLines p [.jsonrpc] ≠ intersect twoLines p [.jsonrpc, .grpc] := by decide
  subst hbothIds
  refine ⟨List.count_eq_one_of_mem (by decide) hp, fun t ht hne => ?_⟩
  rcases List.mem_pair.mp hv with rfl | rfl <;> rcases List.mem_pair.mp ht with rfl | rfl
  · exact absurd rfl hne
  · exact htold p hp
  · exact (htold p hp).symm
  · exact absurd rfl hne

/-- A line that speaks JSON-RPC only is left with it by both sets, and the declaration
is rejected as a duplicate of itself. -/
theorem every_line_twice_rejected :
    (∃ report, expand everyLineTwice (oneLine "v03") none {} = .ok report ∧
      report.scenarios.map ResolvedScenario.name =
        ["every line - go_v03 - jsonrpc", "every line - go_v03 - jsonrpc"]) ∧
    everyLineTwice.behaviorVariants.Nodup ∧ everyLineTwice.transportVariants.Nodup ∧
    everyLineTwice.streamingOptions.Nodup ∧
    (oneLine "v03").entries.map MatrixEntry.agentId = ["go_v03"] ∧
    resolveAll [.traversal everyLineTwice] (oneLine "v03") none {} =
      .error (.valueError ("duplicate scenario name 'every line - go_v03 - jsonrpc'. " ++
        "Results are keyed by name, so one would overwrite the other and the run would " ++
        "silently test less than it reports.")) :=
  ⟨⟨_, rfl, by decide⟩, by decide, by decide, by decide, by decide, rfl⟩

end Distinct

end A2aItk.Scenarios
