import A2aItk.Execution.Accounting

/-!
# From results to records

`scripts/process_results.py`: each result of a batch becomes a record of the history, with
what its definition in the scenario file adds.

## Implementation notes

A definition without a key has `none` there. An entry with a name is a nonempty mapping,
which is true.
-/

namespace A2aItk.Metrics

open Python
open Execution (Runnable Executed Outcome testLabel subtestName executeItkTest runTests)

/-- An entry of the scenario file. -/
structure Definition where
  name : Option String := none
  sdks : Option (List String) := none
  edges : Option (List String) := none
  protocols : Option (List String) := none
  behavior : Option String := none
  traversal : Option String := none
  streaming : Option Bool := none
  buildSubtests : Option Bool := none
  deriving DecidableEq

/-- One result, with the metadata it carries. -/
structure Details where
  passed : Option Bool := none
  sdks : Option (List String) := none
  edges : Option (List String) := none
  protocols : Option (List String) := none
  behavior : Option String := none
  streaming : Option Bool := none

/-- One record of the history. -/
structure Record where
  name : String
  sdks : List String
  edges : Option (List String)
  protocols : Option (List String)
  behavior : Option String
  traversal : String
  passed : Bool
  streaming : Option Bool
  buildSubtests : Option Bool

def isSelfDescribing (details : Details) : Bool :=
  details.protocols.isSome || details.behavior.isSome

def buildRecord (name : String) (details : Details) (base : Option Definition) : Record :=
  let base := base.getD {}
  { name
    sdks := match details.sdks with
      | some (sdk :: rest) => sdk :: rest
      | _ => base.sdks.getD []
    edges := details.edges <|> base.edges
    protocols := details.protocols <|> base.protocols
    behavior := details.behavior <|> base.behavior
    traversal := base.traversal.getD "euler"
    passed := details.passed.getD false
    streaming := details.streaming <|> base.streaming
    buildSubtests := base.buildSubtests }

def byName (baseScenarios : List Definition) : Dict String Definition :=
  Dict.ofList (baseScenarios.filterMap fun b => b.name.map fun name => (name, b))

def subSeparator : String := "-sub-"

/-- `name.split('-sub-')[0]`. -/
def parentName (name : String) : String :=
  String.ofList ((Text.split subSeparator.toList name.toList).headD [])

/-- The definition a result is attributed to. -/
def baseOf (baseScenarios : List Definition) (name : String) : Option Definition :=
  (byName baseScenarios).get? name <|> (byName baseScenarios).get? (parentName name)

/-- The record of a result, or why there is none. -/
def recordOf (baseScenarios : List Definition) (name : String) (details : Details) :
    Except String Record :=
  let base := baseOf baseScenarios name
  if base.isNone && !isSelfDescribing details then
    .error "no metadata on the result and no matching scenario"
  else .ok (buildRecord name details base)

section Splitting

variable {sep l r : List Char}

/-- The first part ends where a separator was put, unless one occurs before. -/
theorem partition_append_iff (hsep : sep ≠ []) :
    (Text.partition sep (l ++ (sep ++ r))).1 = l ↔ ¬ sep <:+: l ++ sep.dropLast := by
  induction l with
  | nil =>
      obtain ⟨c, rest, rfl⟩ := List.exists_cons_of_ne_nil hsep
      refine iff_of_true ?_ fun h => ?_
      · rw [List.nil_append, List.cons_append, Text.partition, ← List.cons_append,
          if_pos (List.isPrefixOf_iff_prefix.mpr (List.prefix_append _ _))]
      · have hlen := h.length_le
        rw [List.nil_append, List.length_dropLast, List.length_cons] at hlen
        omega
  | cons c rest ih =>
      have hwhole : c :: rest ++ (sep ++ r) =
          (c :: rest ++ sep.dropLast) ++ (sep.getLast hsep :: r) := by
        rw [List.append_assoc, List.append_cons sep.dropLast, List.dropLast_append_getLast]
      have hprefix : sep <+: c :: (rest ++ (sep ++ r)) ↔ sep <+: c :: (rest ++ sep.dropLast) := by
        rw [← List.cons_append, ← List.cons_append, hwhole]
        refine ⟨fun h => ?_, fun h => h.trans (List.prefix_append _ _)⟩
        refine List.prefix_of_prefix_length_le h (List.prefix_append _ _) ?_
        rw [List.length_append, List.length_dropLast, List.length_cons]
        omega
      rw [List.cons_append, Text.partition, List.cons_append, List.infix_cons_iff, ← hprefix,
        not_or]
      by_cases hhere : sep <+: c :: (rest ++ (sep ++ r))
      · rw [if_pos (List.isPrefixOf_iff_prefix.mpr hhere)]
        simp [hhere]
      · rw [if_neg (by simpa [List.isPrefixOf_iff_prefix] using hhere)]
        simp [hhere, ih]

theorem parentName_append_iff {label rest : String} :
    parentName (label ++ subSeparator ++ rest) = label ↔
      ¬ subSeparator.toList <:+: label.toList ++ subSeparator.toList.dropLast := by
  have hsep : subSeparator.toList ≠ [] := by decide
  have hparts : (label ++ subSeparator ++ rest).toList =
      label.toList ++ (subSeparator.toList ++ rest.toList) := by
    rw [String.toList_append, String.toList_append, List.append_assoc]
  rw [← partition_append_iff hsep, parentName, Text.split, Text.splitGo_eq_partition hsep, hparts,
    List.headD_cons, List.reverse_nil, List.nil_append, ← String.toList_inj, String.toList_ofList]

end Splitting

section Parents

variable {batch : List Definition} {d : Definition} {name : String}

theorem get?_byName (hnames : (batch.filterMap Definition.name).Nodup) :
    (byName batch).get? name = some d ↔ d ∈ batch ∧ d.name = some name := by
  have hkeys : ((batch.filterMap fun b => b.name.map fun name => (name, b)).map Prod.fst) =
      batch.filterMap Definition.name := by
    rw [List.map_filterMap]
    refine List.filterMap_congr fun b _ => ?_
    cases b.name <;> rfl
  rw [Dict.get?_eq_some_iff, byName, Dict.entries_ofList_of_nodup (hkeys ▸ hnames),
    List.mem_filterMap]
  constructor
  · rintro ⟨b, hb, hentry⟩
    obtain ⟨own, hown, heq⟩ := Option.map_eq_some_iff.mp hentry
    obtain ⟨rfl, rfl⟩ := Prod.mk.inj heq
    exact ⟨hb, hown⟩
  · rintro ⟨hd, hown⟩
    exact ⟨d, hd, by rw [hown]; rfl⟩

/-- The tests of a scenario that are not the whole of it carry the separator. -/
theorem subtest_of_mem_keys {r : Runnable} {agents : Traversal.AgentTable}
    {outcome : ℕ → Outcome} {tests : Dict String Executed}
    (hrun : executeItkTest r agents outcome = .ok tests) (hname : name ∈ tests.keys)
    (hsub : name ≠ testLabel r.scenario.name) :
    ∃ rest, name = testLabel r.scenario.name ++ subSeparator ++ rest := by
  obtain ⟨executed, hexecuted, htests⟩ := bind_eq_ok_iff.mp hrun
  obtain rfl := Except.ok.inj htests
  obtain ⟨⟨name, t⟩, hentry, rfl⟩ := List.mem_map.mp hname
  have hmem := Dict.mem_of_get?_ofList (Dict.get?_eq_some_iff.mpr hentry)
  obtain ⟨t, ht, heq⟩ := List.mem_map.mp hmem
  obtain ⟨rfl, rfl⟩ := Prod.mk.inj heq
  unfold runTests at hexecuted
  simp only at hexecuted
  split at hexecuted
  · obtain rfl := Except.ok.inj hexecuted
    rw [List.mem_singleton] at ht
    subst ht
    exact absurd rfl hsub
  · obtain ⟨subgraphs, -, hexecuted⟩ := bind_eq_ok_iff.mp hexecuted
    obtain rfl := Except.ok.inj hexecuted
    obtain ⟨p, -, rfl⟩ := List.mem_map.mp ht
    simp only [subtestName] at hsub ⊢
    split
    · rename_i hlen
      exact absurd (if_pos hlen) hsub
    · exact ⟨_, rfl⟩

theorem testLabel_of_ne {label : String} (h : label ≠ "") : testLabel label = label := by
  rw [testLabel, if_neg (by simpa [String.isEmpty_iff] using h)]

/-- A subtest finds its parent just where its own name is nobody else's and the parent's
name does not bring the separator. -/
theorem baseOf_subtest_iff {r : Runnable} {agents : Traversal.AgentTable}
    {outcome : ℕ → Outcome} {tests : Dict String Executed}
    (hnames : (batch.filterMap Definition.name).Nodup) (hd : d ∈ batch)
    (hparent : d.name = some r.scenario.name)
    (hrun : executeItkTest r agents outcome = .ok tests) (hname : name ∈ tests.keys)
    (hsub : name ≠ testLabel r.scenario.name) :
    baseOf batch name = some d ↔
      r.scenario.name ≠ "" ∧ (∀ other ∈ batch, other.name ≠ some name) ∧
        ¬ subSeparator.toList <:+: (r.scenario.name ++ "-sub").toList := by
  obtain ⟨rest, hrest⟩ := subtest_of_mem_keys hrun hname hsub
  have hseparator : subSeparator.toList.dropLast = "-sub".toList := by decide
  rw [baseOf]
  cases hown : (byName batch).get? name with
  | some other =>
      obtain ⟨hother, hothername⟩ := (get?_byName hnames).mp hown
      refine iff_of_false (fun heq => ?_) fun h => h.2.1 other hother hothername
      obtain rfl : other = d := Option.some.inj heq
      have hlabel : name = r.scenario.name := Option.some.inj (hothername.symm.trans hparent)
      by_cases hempty : r.scenario.name = ""
      · rw [hempty, hrest] at hlabel
        have hlen := congrArg String.length hlabel
        simp [subSeparator] at hlen
      · exact hsub (hlabel.trans (testLabel_of_ne hempty).symm)
  | none =>
      have hnobody : ∀ other ∈ batch, other.name ≠ some name := by
        intro other hother hothername
        rw [(get?_byName hnames).mpr ⟨hother, hothername⟩] at hown
        cases hown
      change (byName batch).get? (parentName name) = some d ↔ _
      rw [get?_byName hnames, hparent, Option.some_inj, hrest, and_iff_right hd]
      by_cases hempty : r.scenario.name = ""
      · have hlabel : testLabel "" = "euler" := by decide +kernel
        have heuler : parentName (testLabel "" ++ subSeparator ++ rest) = "euler" := by
          rw [hlabel, parentName_append_iff]
          decide +kernel
        rw [hempty, heuler]
        exact iff_of_false (by decide) fun h => h.1 rfl
      · rw [testLabel_of_ne hempty, eq_comm, parentName_append_iff, hseparator,
          ← String.toList_append]
        rw [testLabel_of_ne hempty] at hrest
        exact ⟨fun h => ⟨hempty, hrest ▸ hnobody, h⟩, fun h => h.2.2⟩

/-- What an attributed result gets from its definition. -/
theorem recordOf_of_baseOf (h : baseOf batch name = some d) (details : Details) :
    recordOf batch name details = .ok (buildRecord name details (some d)) := by
  rw [recordOf, h]
  rfl

/-- Three agents, with a subtest for each peer. -/
def threeAgents (name : String) : Runnable where
  scenario := {
    name, sdks := ["current", "go_v10", "python_v10"], behavior := "send_message",
    buildSubtests := true }
  sdks := ["current", "go_v10", "python_v10"]
  edges := none

def threeEndpoints : Traversal.AgentTable :=
  ⟨[("current", ⟨1⟩), ("go_v10", ⟨2⟩), ("python_v10", ⟨3⟩)]⟩

def testsOf (name : String) : Except PyError (Dict String Executed) :=
  executeItkTest (threeAgents name) threeEndpoints fun _ => .finished true

theorem baseOf_subtest_iff_star :
    ∃ tests, testsOf "star" = .ok tests ∧ "star-sub-current-go_v10" ∈ tests.keys ∧
      (baseOf [{ name := some "star" }] "star-sub-current-go_v10" =
          some { name := some "star" } ↔
        "star" ≠ "" ∧ (∀ other ∈ [({ name := some "star" } : Definition)],
            other.name ≠ some "star-sub-current-go_v10") ∧
          ¬ subSeparator.toList <:+: ("star" ++ "-sub").toList) := by
  have hkeys : (testsOf "star").map Dict.keys =
      .ok ["star-sub-current-go_v10", "star-sub-current-python_v10", "star"] := by
    decide +kernel
  cases htests : testsOf "star" with
  | error e =>
      rw [htests] at hkeys
      cases hkeys
  | ok tests =>
      rw [htests] at hkeys
      have hname : "star-sub-current-go_v10" ∈ tests.keys := by
        rw [Except.ok.inj hkeys]
        decide
      exact ⟨tests, rfl, hname, baseOf_subtest_iff (by decide) List.mem_cons_self rfl htests hname
        (by decide +kernel)⟩

/-- A label that brings the separator loses its subtests. -/
theorem baseOf_subtest_separator :
    (testsOf "core-sub-1").map Dict.keys = .ok
        ["core-sub-1-sub-current-go_v10", "core-sub-1-sub-current-python_v10", "core-sub-1"] ∧
      baseOf [{ name := some "core-sub-1" }] "core-sub-1-sub-current-go_v10" = none := by
  decide +kernel

end Parents

end A2aItk.Metrics
