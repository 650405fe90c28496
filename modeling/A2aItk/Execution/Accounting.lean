import A2aItk.Execution.Runner

/-!
# What becomes of every scenario of a batch

A scenario is run or listed as skipped, and every test that was run has its own
entry in the answer. Two things can break this: a scenario expanded into subtests
may have none, and two tests may have one name.
-/

namespace A2aItk.Execution

open Python Scenarios Multigraph
open Traversal

section Planned

/-- The selections of agents a scenario can be expanded into. -/
def traversable (sdks : List String) (edges protocols : Option (List String)) :
    List (List String) :=
  match ownEdges sdks edges with
  | .error _ => []
  | .ok own => (candidates sdks).filter fun sub =>
      protocols.getD allTransports = [] ∨
        DegreeBalanced (traversedEdges own sub : Multiset (String × String))

def Runnable.traversable (r : Runnable) : List (List String) :=
  Execution.traversable r.sdks r.edges r.scenario.protocols

/-- The names of the tests a scenario stands for. -/
def plannedNames (r : Runnable) : List String :=
  let label := testLabel r.scenario.name
  if r.scenario.buildSubtests then r.traversable.map (subtestName label r.sdks) else [label]

variable {r : Runnable} {agents : AgentTable} {sdks : List String}

theorem getValidSubgraphs_traversable (edges protocols : Option (List String))
    (behavior : String) (streaming : Bool) (haddr : Addressed agents sdks) :
    ∃ subs, getValidSubgraphs sdks edges behavior agents protocols streaming = .ok subs ∧
      subs.map Subgraph.sdks = traversable sdks edges protocols := by
  unfold traversable
  cases hown : ownEdges sdks edges with
  | error e => exact ⟨[], getValidSubgraphs_of_error behavior streaming sdks hown, rfl⟩
  | ok own =>
      cases sdks with
      | nil => exact ⟨[], rfl, rfl⟩
      | cons root remaining =>
          obtain ⟨subs, hsubs, hsdks, -⟩ :=
            getValidSubgraphs_spec protocols behavior streaming hown haddr
          exact ⟨subs, hsubs, hsdks⟩

/-- The tests that are run have the planned names, whatever their outcome. -/
theorem runTests_spec (outcome : Nat → Outcome) (haddr : Addressed agents r.sdks) :
    ∃ tests, runTests r agents outcome = .ok tests ∧
      tests.map Executed.name = plannedNames r := by
  unfold runTests plannedNames
  by_cases hbuild : r.scenario.buildSubtests = true
  · obtain ⟨subs, hsubs, hsdks⟩ := getValidSubgraphs_traversable r.edges r.scenario.protocols
      r.scenario.behavior r.scenario.streaming haddr
    simp only [hbuild, hsubs, Bool.not_true, Bool.false_eq_true, if_false, if_true]
    refine ⟨_, rfl, ?_⟩
    rw [Runnable.traversable, ← hsdks, List.map_map, List.map_map]
    calc subs.zipIdx.map (Executed.name ∘ _)
        = subs.zipIdx.map ((subtestName (testLabel r.scenario.name) r.sdks ∘ Subgraph.sdks) ∘
            Prod.fst) := rfl
      _ = subs.map (subtestName (testLabel r.scenario.name) r.sdks ∘ Subgraph.sdks) := by
          rw [← List.map_map, List.zipIdx_map_fst]
  · simp only [Bool.not_eq_true] at hbuild
    simp [hbuild]

theorem plannedNames_eq_nil_iff :
    plannedNames r = [] ↔ r.scenario.buildSubtests = true ∧ r.traversable = [] := by
  unfold plannedNames
  split
  · rename_i hbuild
    simp [hbuild]
  · rename_i hbuild
    simp [hbuild]

end Planned

section Loop

variable {agents : AgentTable} {outcome : Nat → Nat → Outcome} {i : Nat} {l : List Runnable}
  {runs : List (Runnable × List Executed)}

/-- The tests run for each runnable scenario, from the `i`-th. -/
def testsRun (agents : AgentTable) (outcome : Nat → Nat → Outcome) :
    Nat → List Runnable → Except PyError (List (Runnable × List Executed))
  | _, [] => pure []
  | i, r :: rest => do
      let tests ← runTests r agents (outcome i)
      let runs ← testsRun agents outcome (i + 1) rest
      pure ((r, tests) :: runs)

/-- The entries that the tests of one scenario are due. -/
def testEntries (run : Runnable × List Executed) : List (String × ScenarioResult) :=
  run.2.map fun t => (t.name, scenarioResult run.1.scenario t)

theorem testsRun_spec (outcome : Nat → Nat → Outcome) (i : Nat)
    (haddr : ∀ r ∈ l, Addressed agents r.sdks) :
    ∃ runs, testsRun agents outcome i l = .ok runs ∧
      List.Forall₂ (fun r run => run.1 = r ∧ run.2.map Executed.name = plannedNames r) l runs := by
  induction l generalizing i with
  | nil => exact ⟨[], rfl, .nil⟩
  | cons r rest ih =>
      obtain ⟨tests, htests, hnames⟩ := runTests_spec (outcome i) (haddr r (by simp))
      obtain ⟨runs, hruns, hall⟩ := ih (i + 1) fun r' hr' => haddr r' (by simp [hr'])
      exact ⟨(r, tests) :: runs, by rw [testsRun, htests, ok_bind, hruns]; rfl,
        .cons ⟨rfl, hnames⟩ hall⟩

theorem names_of_testsRun
    (h : List.Forall₂ (fun r run => run.1 = r ∧ run.2.map Executed.name = plannedNames r) l runs) :
    (runs.flatMap testEntries).map Prod.fst = l.flatMap plannedNames := by
  induction h with
  | nil => rfl
  | cons hrun _ ih =>
      rw [List.flatMap_cons, List.map_append, ih, List.flatMap_cons, ← hrun.2, testEntries,
        List.map_map]
      rfl

/-- Where no name comes twice, the loop over the scenarios adds one entry a test. -/
theorem executeAll_of_testsRun (results : Dict String ScenarioResult)
    (h : testsRun agents outcome i l = .ok runs) :
    ∃ d, executeAll agents outcome i l results = .ok d ∧
      ((results.keys ++ (runs.flatMap testEntries).map Prod.fst).Nodup →
        d.entries = results.entries ++ runs.flatMap testEntries) := by
  induction l generalizing i results runs with
  | nil =>
      obtain rfl := Except.ok.inj h
      exact ⟨results, rfl, fun _ => (List.append_nil _).symm⟩
  | cons r rest ih =>
      obtain ⟨tests, htests, h⟩ := bind_eq_ok_iff.mp h
      obtain ⟨runs, hruns, h⟩ := bind_eq_ok_iff.mp h
      obtain rfl := Except.ok.inj h
      let raw := Dict.ofList (tests.map fun t => (t.name, t))
      let mine := raw.entries.map fun p => (p.1, scenarioResult r.scenario p.2)
      obtain ⟨d, hd, hentries⟩ := ih (results.update mine) hruns
      refine ⟨d, ?_, fun hnodup => ?_⟩
      · rw [executeAll, executeItkTest, htests, ok_bind]
        exact hd
      · rw [List.flatMap_cons, List.map_append, ← List.append_assoc] at hnodup
        have hfirst := (List.nodup_append.mp hnodup).1
        have hnames : ((tests.map fun t => (t.name, t)).map Prod.fst).Nodup := by
          have := (List.nodup_append.mp hfirst).2.1
          simpa [testEntries, Function.comp_def] using this
        have hmine : mine = testEntries (r, tests) := by
          simp only [mine, raw, Dict.entries_ofList_of_nodup hnames, List.map_map, testEntries]
          rfl
        have hupdate : (results.update mine).entries =
            results.entries ++ testEntries (r, tests) := by
          rw [hmine]
          exact Dict.entries_update_of_nodup hfirst
        rw [hentries, hupdate, List.flatMap_cons, List.append_assoc]
        rw [Dict.keys, hupdate, List.map_append]
        exact hnodup

end Loop

section Run

variable {env : Environment} {batch : List ResolvedScenario} {report : RunReport}
  {selection : Selection} {runs : List (Runnable × List Executed)}

theorem mem_planIds {a : String} : a ∈ planIds batch ↔ ∃ s ∈ batch, a ∈ s.sdks := by
  rw [planIds, sortedSet, List.mem_insertionSort, List.mem_dedup, List.mem_flatMap]

/-- An agent of the batch came up or was dropped. -/
theorem started_or_dropped (env : Environment) {a : String} (h : a ∈ planIds batch) :
    a ∈ startedIds (startedAgents env batch) ∨
      ∃ detail, (a, detail) ∈ droppedPeers env batch := by
  cases hstart : env.start a with
  | ok endpoint =>
      left
      refine List.mem_map.mpr ⟨(a, endpoint), List.mem_filterMap.mpr ⟨a, h, ?_⟩, rfl⟩
      simp [hstart, Except.toOption]
  | error detail =>
      right
      exact ⟨detail, List.mem_filterMap.mpr ⟨a, h, by simp [hstart]⟩⟩

theorem addressed_of_started {agents : AgentTable} {sdks : List String}
    (h : ∀ a ∈ sdks, a ∈ startedIds agents) : Addressed agents sdks := by
  intro a ha
  cases hlookup : agents.endpoints.lookup a with
  | none =>
      obtain ⟨p, hp, hpa⟩ := List.mem_map.mp (h a ha)
      have hne := List.lookup_eq_none_iff.mp hlookup p hp
      rw [hpa] at hne
      simp at hne
  | some endpoint => exact ⟨endpoint.cardUri, by rw [AgentTable.cardUri, hlookup]; rfl⟩

theorem addressed_of_runnable (h : selectRunnable batch (startedAgents env batch) = .ok selection) :
    ∀ r ∈ selection.runnable, Addressed (startedAgents env batch) r.sdks := by
  intro r hr
  obtain ⟨-, part, hpart, hr⟩ := (mem_selectRunnable_iff h).mp hr
  exact addressed_of_started (selectOne_started hpart hr)

theorem liftPy_eq_ok_iff {α : Type} {x : Except PyError α} {a : α} :
    liftPy x = .ok a ↔ x = .ok a := by
  cases x with
  | error e => simp [liftPy]
  | ok b => simp [liftPy]

/-- What a run that finished has done. -/
theorem runScenarios_eq_ok (h : runScenarios env batch = .ok report) :
    ∃ selection, selectRunnable batch (startedAgents env batch) = .ok selection ∧
      selection.runnable ≠ [] ∧
      executeAll (startedAgents env batch) env.outcome 0 selection.runnable Dict.empty =
        .ok report.results ∧
      report.droppedPeers = droppedPeers env batch ∧ report.trimmed = selection.trimmed ∧
      report.skipped = selection.skipped := by
  unfold runScenarios at h
  split at h
  · cases h
  · unfold runLocked at h
    obtain ⟨specs, -, h⟩ := bind_eq_ok_iff.mp h
    dsimp only at h
    split at h
    · cases h
    · obtain ⟨selection, hselection, h⟩ := bind_eq_ok_iff.mp h
      split at h
      · cases h
      · rename_i hsome
        obtain ⟨results, hresults, h⟩ := bind_eq_ok_iff.mp h
        obtain rfl := Except.ok.inj h
        exact ⟨selection, liftPy_eq_ok_iff.mp hselection, by simpa using hsome,
          liftPy_eq_ok_iff.mp hresults, rfl, rfl, rfl⟩

/-- A scenario was given up for want of an agent, and the answer says so. -/
def ListedSkipped (env : Environment) (batch : List ResolvedScenario)
    (response : RunTestsResponse) (s : ResolvedScenario) : Prop :=
  ∃ missing startup, selectOne (startedIds (startedAgents env batch)) s =
      .ok { skipped := [(s.name, missing)] } ∧
    response.startup = some startup ∧ (s.name, missing) ∈ startup.skipped

/-- Nothing is lost between a batch and the answer to it. -/
structure NothingLost (env : Environment) (batch : List ResolvedScenario)
    (runs : List (Runnable × List Executed)) (response : RunTestsResponse) : Prop where
  accounted : ∀ s ∈ batch, ListedSkipped env batch response s ∨
    ∃ run ∈ runs, run.1.scenario = s ∧ ∃ t ∈ run.2,
      response.results.get? t.name = some (scenarioResult s t)
  recorded : response.results.entries = runs.flatMap testEntries
  verdict : response.allPassed = true →
    (∀ s ∈ batch, ListedSkipped env batch response s ∨
      ∃ run ∈ runs, run.1.scenario = s ∧ run.2 ≠ []) ∧
    ∀ run ∈ runs, ∀ t ∈ run.2, t.passed = true

/-- A scenario that was skipped is listed as such. -/
theorem listed_of_skipped {s : ResolvedScenario} {missing : List String}
    (hselection : selectRunnable batch (startedAgents env batch) = .ok selection)
    (hdropped : report.droppedPeers = droppedPeers env batch)
    (hskipped : report.skipped = selection.skipped) (hs : s ∈ batch)
    (hmissing : missingAgents (startedIds (startedAgents env batch)) s ≠ [])
    (hpart : selectOne (startedIds (startedAgents env batch)) s =
      .ok { skipped := [(s.name, missing)] }) :
    ListedSkipped env batch (runResponse report) s := by
  obtain ⟨a, ha⟩ := List.exists_mem_of_ne_nil _ hmissing
  obtain ⟨hin, hout⟩ := List.mem_filter.mp ha
  -- a missing agent was planned, so it was dropped, and there is a startup report
  have hdrop : report.droppedPeers ≠ [] := by
    obtain hstarted | ⟨detail, hdetail⟩ := started_or_dropped env
      (mem_planIds.mpr ⟨s, hs, hin⟩)
    · exact absurd hstarted (by simpa using hout)
    · rw [hdropped]
      exact List.ne_nil_of_mem hdetail
  refine ⟨missing, _, hpart, by rw [runResponse, startupReport, if_neg (by simpa using hdrop)], ?_⟩
  obtain ⟨parts, hparts, rfl⟩ := selectRunnable_eq_ok_iff.mp hselection
  change (s.name, missing) ∈ report.skipped
  rw [hskipped, Selection.join_skipped, mem_flatMap_of_forall₂ hparts]
  exact ⟨s, hs, _, hpart, List.mem_singleton_self _⟩

theorem runnable_or_listed {s : ResolvedScenario}
    (hselection : selectRunnable batch (startedAgents env batch) = .ok selection)
    (hdropped : report.droppedPeers = droppedPeers env batch)
    (hskipped : report.skipped = selection.skipped) (hs : s ∈ batch) :
    ListedSkipped env batch (runResponse report) s ∨
      ∃ r ∈ selection.runnable, r.scenario = s := by
  obtain ⟨part, hpart⟩ := exists_selectOne (startedIds (startedAgents env batch)) s
  have hrun : ∀ r ∈ part.runnable, r.scenario = s → r ∈ selection.runnable := by
    rintro r hr rfl
    exact (mem_selectRunnable_iff hselection).mpr ⟨hs, part, hpart, hr⟩
  obtain ⟨-, rfl⟩ | ⟨hmissing, -, rfl⟩ | ⟨-, kept, keptEdges, -, rfl⟩ := selectOne_cases hpart
  · exact Or.inr ⟨_, hrun _ (List.mem_singleton_self _) rfl, rfl⟩
  · exact Or.inl (listed_of_skipped hselection hdropped hskipped hs hmissing hpart)
  · exact Or.inr ⟨_, hrun _ (List.mem_singleton_self _) rfl, rfl⟩

/-- One scenario is run in one way. -/
theorem runnable_unique {r r' : Runnable}
    (hselection : selectRunnable batch (startedAgents env batch) = .ok selection)
    (hr : r ∈ selection.runnable) (hr' : r' ∈ selection.runnable)
    (h : r'.scenario = r.scenario) : r' = r := by
  obtain ⟨-, part, hpart, hr⟩ := (mem_selectRunnable_iff hselection).mp hr
  obtain ⟨-, part', hpart', hr'⟩ := (mem_selectRunnable_iff hselection).mp hr'
  rw [h] at hpart'
  obtain rfl := Except.ok.inj (hpart.symm.trans hpart')
  obtain ⟨-, rfl⟩ | ⟨-, -, rfl⟩ | ⟨-, kept, keptEdges, -, rfl⟩ := selectOne_cases hpart
  · rw [List.mem_singleton.mp hr, List.mem_singleton.mp hr']
  · simp at hr
  · rw [List.mem_singleton.mp hr, List.mem_singleton.mp hr']

/-- A scenario that runs is not skipped. -/
theorem not_listed_of_runnable {r : Runnable} {response : RunTestsResponse}
    (hselection : selectRunnable batch (startedAgents env batch) = .ok selection)
    (hr : r ∈ selection.runnable) : ¬ ListedSkipped env batch response r.scenario := by
  rintro ⟨missing, startup, hpart, -, -⟩
  obtain ⟨-, part, hpart', hr⟩ := (mem_selectRunnable_iff hselection).mp hr
  obtain rfl := Except.ok.inj (hpart.symm.trans hpart')
  simp at hr

/-- The answer has an entry of its own for every test when no two tests have one
name. -/
theorem recorded_iff
    (hselection : selectRunnable batch (startedAgents env batch) = .ok selection)
    (hexec : executeAll (startedAgents env batch) env.outcome 0 selection.runnable Dict.empty =
      .ok report.results)
    (hruns : testsRun (startedAgents env batch) env.outcome 0 selection.runnable = .ok runs) :
    report.results.entries = runs.flatMap testEntries ↔
      (selection.runnable.flatMap plannedNames).Nodup := by
  obtain ⟨runs', hruns', hnames⟩ := testsRun_spec env.outcome 0
    (addressed_of_runnable hselection)
  obtain rfl := Except.ok.inj (hruns.symm.trans hruns')
  obtain ⟨d, hd, hentries⟩ := executeAll_of_testsRun Dict.empty hruns
  obtain rfl := Except.ok.inj (hexec.symm.trans hd)
  rw [← names_of_testsRun hnames]
  constructor
  · intro h
    rw [← h]
    exact report.results.distinct
  · exact fun h => hentries h

/-- Nothing is lost exactly when every scenario that is expanded has a selection
to run, and no two tests have one name. -/
theorem run_loses_nothing_iff (h : runScenarios env batch = .ok report)
    (hselection : selectRunnable batch (startedAgents env batch) = .ok selection)
    (hruns : testsRun (startedAgents env batch) env.outcome 0 selection.runnable = .ok runs) :
    NothingLost env batch runs (runResponse report) ↔
      (∀ r ∈ selection.runnable, r.scenario.buildSubtests = true → r.traversable ≠ []) ∧
      (selection.runnable.flatMap plannedNames).Nodup := by
  obtain ⟨selection', hselection', -, hexec, hdropped, -, hskipped⟩ := runScenarios_eq_ok h
  obtain rfl := Except.ok.inj (hselection.symm.trans hselection')
  obtain ⟨runs', hruns', hnames⟩ := testsRun_spec env.outcome 0
    (addressed_of_runnable hselection)
  obtain rfl := Except.ok.inj (hruns.symm.trans hruns')
  have hrecorded := recorded_iff hselection hexec hruns
  -- the tests of a runnable scenario, and the scenario of a run
  have htests : ∀ r ∈ selection.runnable, ∃ run ∈ runs, run.1 = r ∧
      run.2.map Executed.name = plannedNames r :=
    fun r hr => exists_left_of_mem hnames.flip hr
  have hrunnable : ∀ run ∈ runs, run.1 ∈ selection.runnable ∧
      run.2.map Executed.name = plannedNames run.1 := by
    intro run hrun
    obtain ⟨r, hr, rfl, hplanned⟩ := exists_left_of_mem hnames hrun
    exact ⟨hr, hplanned⟩
  constructor
  · intro hlost
    refine ⟨fun r hr hbuild hnone => ?_, hrecorded.mp hlost.recorded⟩
    have hs := ((mem_selectRunnable_iff hselection).mp hr).1
    obtain hlisted | ⟨run, hrun, hscenario, t, ht, -⟩ := hlost.accounted r.scenario hs
    · exact not_listed_of_runnable hselection hr hlisted
    · obtain ⟨hin, hplanned⟩ := hrunnable run hrun
      obtain rfl := runnable_unique hselection hr hin hscenario
      rw [plannedNames_eq_nil_iff.mpr ⟨hbuild, hnone⟩, List.map_eq_nil_iff] at hplanned
      simp [hplanned] at ht
  · rintro ⟨hexpanded, hnodup⟩
    have hentries := hrecorded.mpr hnodup
    have hne : ∀ run ∈ runs, run.2 ≠ [] := by
      intro run hrun hnil
      obtain ⟨hin, hplanned⟩ := hrunnable run hrun
      rw [hnil] at hplanned
      obtain ⟨hbuild, hnone⟩ := plannedNames_eq_nil_iff.mp hplanned.symm
      exact hexpanded _ hin hbuild hnone
    have hentry : ∀ run ∈ runs, ∀ t ∈ run.2,
        (t.name, scenarioResult run.1.scenario t) ∈ report.results.entries := by
      intro run hrun t ht
      rw [hentries]
      exact List.mem_flatMap.mpr ⟨run, hrun, List.mem_map.mpr ⟨t, ht, rfl⟩⟩
    have hran : ∀ s ∈ batch, ListedSkipped env batch (runResponse report) s ∨
        ∃ run ∈ runs, run.1.scenario = s := by
      intro s hs
      obtain hlisted | ⟨r, hr, rfl⟩ := runnable_or_listed hselection hdropped hskipped hs
      · exact Or.inl hlisted
      · obtain ⟨run, hrun, rfl, -⟩ := htests r hr
        exact Or.inr ⟨run, hrun, rfl⟩
    refine ⟨fun s hs => ?_, hentries, fun hpassed => ⟨fun s hs => ?_, fun run hrun t ht => ?_⟩⟩
    · obtain hlisted | ⟨run, hrun, rfl⟩ := hran s hs
      · exact Or.inl hlisted
      · obtain ⟨t, ht⟩ := List.exists_mem_of_ne_nil _ (hne run hrun)
        exact Or.inr ⟨run, hrun, rfl, t, ht, Dict.get?_eq_some_iff.mpr (hentry run hrun t ht)⟩
    · obtain hlisted | ⟨run, hrun, rfl⟩ := hran s hs
      · exact Or.inl hlisted
      · exact Or.inr ⟨run, hrun, rfl, hne run hrun⟩
    · have hall := List.all_eq_true.mp hpassed
      exact hall _ (List.mem_map.mpr ⟨_, hentry run hrun t ht, rfl⟩)

/-- A run that could start nothing never counts as passed. -/
theorem answer_allPassed {response : RunTestsResponse} (h : answer env batch = .ok response)
    (hpassed : response.allPassed = true) :
    ∃ report, runScenarios env batch = .ok report ∧ response = runResponse report := by
  unfold answer at h
  split at h
  · rename_i report hreport
    exact ⟨report, hreport, (Except.ok.inj h).symm⟩
  · obtain rfl := Except.ok.inj h
    cases hpassed
  · cases h

end Run

section Examples

/-- Every agent comes up, and every traversal passes. -/
def allUp : Environment where
  matrix := ⟨[{ sdk := "python", line := "v10", repo := "a2a-python", ref := "v1.0" }],
    List.nodup_singleton _⟩
  resolveRef := fun _ ref => .ok ref
  start := fun _ => .ok ⟨1⟩
  outcome := fun _ _ => .finished true

/-- Expanded into subtests over the given edges. -/
def expanded (edges : List String) : ResolvedScenario where
  name := "expanded"
  sdks := ["current", "python_v10"]
  behavior := "send_message"
  edges := some edges
  protocols := some ["grpc"]
  buildSubtests := true

theorem run_loses_nothing_balanced :
    ∃ report selection runs,
      runScenarios allUp [expanded ["0->1", "1->0"]] = .ok report ∧
      selectRunnable [expanded ["0->1", "1->0"]]
        (startedAgents allUp [expanded ["0->1", "1->0"]]) = .ok selection ∧
      testsRun (startedAgents allUp [expanded ["0->1", "1->0"]]) allUp.outcome 0
        selection.runnable = .ok runs ∧
      (NothingLost allUp [expanded ["0->1", "1->0"]] runs (runResponse report) ↔
        (∀ r ∈ selection.runnable, r.scenario.buildSubtests = true → r.traversable ≠ []) ∧
        (selection.runnable.flatMap plannedNames).Nodup) :=
  ⟨_, _, _, rfl, rfl, rfl, run_loses_nothing_iff rfl rfl rfl⟩

/-- No selection of an unbalanced scenario can be traversed: the run passes with
nothing run and nothing listed as skipped. -/
theorem expanded_unbalanced_lost :
    ∃ report selection runs,
      runScenarios allUp [expanded ["0->1"]] = .ok report ∧
      selectRunnable [expanded ["0->1"]] (startedAgents allUp [expanded ["0->1"]]) =
        .ok selection ∧
      testsRun (startedAgents allUp [expanded ["0->1"]]) allUp.outcome 0 selection.runnable =
        .ok runs ∧
      (runResponse report).allPassed = true ∧ report.results.entries = [] ∧
      report.skipped = [] ∧
      ¬ NothingLost allUp [expanded ["0->1"]] runs (runResponse report) := by
  refine ⟨⟨Dict.empty, [], [], []⟩, { runnable := [⟨expanded ["0->1"], _, _⟩] }, [(_, [])],
    rfl, rfl, rfl, rfl, rfl, rfl, fun h => ?_⟩
  obtain ⟨missing, startup, -, hstartup, -⟩ | ⟨run, -, -, t, -, hentry⟩ :=
    h.accounted _ (List.mem_singleton_self _)
  · cases hstartup
  · cases hentry

end Examples

end A2aItk.Execution
