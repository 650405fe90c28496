import A2aItk.Execution.Runner
import A2aItk.Launcher.FailureContainment
import A2aItk.Launcher.Planning

/-!
# Runs over a launched cluster

`run_scenarios` and `_run_locked` of `itk_runner.py`, over the planner and the launcher as they
are: refs are looked up, the agents are started by a pool of workers, and what came up and what
failed is read off their outcomes. Such a run is a run in an `Environment`, one that answers for
every agent what its worker made of the commit that was looked up.

## Implementation notes

What the remotes, the workers and the traversals meet is a `Launch`. The teardown of the cluster
changes nothing of the report.
-/

namespace A2aItk.Execution

open Python Scenarios
open Traversal (AgentTable AgentEndpoint)
open Launcher (PlanState Remotes Schedule StartSettings StartOutcome AgentHandle LauncherError
  Raised Outside)

section Model

/-- What stops a launched run. -/
inductive LaunchFailure
  | planning (e : Launcher.PlanFailure)
  | starting (e : Raised)
  | running (e : RunError)

/-- The outside of a launched run; `outside i` is what the `i`-th agent of the plan meets. -/
structure Launch (σ : Type) where
  matrix : Matrix
  remotes : Remotes σ
  readinessTimeout : ℕ
  itkMaxWorkers : String
  schedule : (n : ℕ) → Schedule n
  outside : ℕ → Outside
  outcome : ℕ → ℕ → Outcome

/-- `f'{o.error.stage.value}: {o.error}'`. -/
def errorText (e : LauncherError) : String := s!"{e.stage.value}: {e.text}"

/-- `o.error` of an outcome without a handle, which has one. -/
def failure (o : StartOutcome) : Option String :=
  match o.handle with
  | some _ => none
  | none => o.error.map errorText

def startedHandles (ids : List String) (outcomes : List StartOutcome) : Dict String AgentHandle :=
  Dict.ofList ((ids.zip outcomes).filterMap fun p => p.2.handle.map fun handle => (p.1, handle))

def failedPeers (ids : List String) (outcomes : List StartOutcome) : Dict String String :=
  Dict.ofList ((ids.zip outcomes).filterMap fun p => (failure p.2).map fun text => (p.1, text))

/-- `AgentTable.from_handles`. -/
def fromHandles (handles : Dict String AgentHandle) : AgentTable :=
  ⟨handles.entries.map fun p => (p.1, ⟨p.2.httpPort⟩)⟩

/-- `_run_locked`, from where the agents are started. -/
def runStarted (scenarios : List ResolvedScenario) (dropped : List (String × String))
    (agents : AgentTable) (outcome : ℕ → ℕ → Outcome) : Except RunError RunReport := do
  if sutId ∈ dropped.map Prod.fst then
    throw (.clusterStartup (sortedPeers dropped)
      s!"the code under test ({Text.repr sutId}) failed to start")
  let selection ← liftPy (selectRunnable scenarios agents)
  if selection.runnable.isEmpty then
    throw (.clusterStartup (sortedPeers dropped)
      "every scenario needed a peer that failed to start")
  let results ← liftPy (executeAll agents outcome 0 selection.runnable Dict.empty)
  return ⟨results, dropped, selection.trimmed, selection.skipped⟩

namespace Launch

variable {σ : Type} (launch : Launch σ)

def settings (ids : List String) : StartSettings where
  readinessTimeout := launch.readinessTimeout
  logNames := some (ids.map fun sid => some s!"agent_{sid}")
  maxWorkers := none
  itkMaxWorkers := launch.itkMaxWorkers

def start (p : Launcher.Plan) : Except Raised (List StartOutcome) :=
  Launcher.startAll (launch.settings p.ids) p.specs (launch.schedule p.specs.length)
    launch.outside

def runLocked (scenarios : List ResolvedScenario) :
    EStateM LaunchFailure (PlanState σ) RunReport := do
  let p ← EStateM.adaptExcept .planning (Launcher.plan launch.matrix launch.remotes scenarios)
  let outcomes ← Effects.lift (Except.mapError .starting (launch.start p))
  Effects.lift (Except.mapError .running
    (runStarted scenarios (failedPeers p.ids outcomes).entries
      (fromHandles (startedHandles p.ids outcomes)) launch.outcome))

def runScenarios (scenarios : List ResolvedScenario) :
    EStateM LaunchFailure (PlanState σ) RunReport :=
  if scenarios.isEmpty then throw (.running (.valueError "No scenarios provided"))
  else launch.runLocked scenarios

end Launch

end Model

section Abstraction

variable {σ : Type}

/-- What a run learns of an agent that was to be started. -/
def startResult (o : StartOutcome) : Except String AgentEndpoint :=
  match o.handle with
  | some handle => .ok ⟨handle.httpPort⟩
  | none => .error ((failure o).getD "")

/-- The spec of an agent: the mount for the code under test, and otherwise the commit that its
ref is resolved to. -/
def SpecOf (env : Environment) (sdkId : String) (spec : Launcher.TargetSpec) : Prop :=
  (sdkId = sutId ∧ spec.toSpecFields = ⟨.mount, none, none⟩) ∨
    sdkId ≠ sutId ∧ ∃ entry sha, env.matrix.resolve sdkId = .ok entry ∧
      env.resolveRef entry.repo entry.ref = .ok sha ∧ Launcher.isSha sha.toList = true ∧
      spec.toSpecFields = ⟨.checkout, some entry.repo, some sha⟩

/-- The environment answers as the remotes did in a run, and for each agent as its worker did. -/
structure Realises (launch : Launch σ) (scenarios : List ResolvedScenario) (s t : PlanState σ)
    (env : Environment) : Prop where
  matrix : env.matrix = launch.matrix
  outcome : env.outcome = launch.outcome
  /-- A ref has the commit that its lookup found, in the order of the lookups. -/
  answered : ∃ learned, Launcher.LookedUp launch.remotes s.outside learned t.outside ∧
    t.lookups = s.lookups ++ learned.map Prod.fst ∧
    ∀ repo ref sha, env.resolveRef repo ref = .ok sha ↔ ((repo, ref), sha) ∈ learned
  agents : ∀ i sdkId, (planIds scenarios)[i]? = some sdkId → ∃ spec started,
    SpecOf env sdkId spec ∧
    Launcher.startOne spec (launch.outside i) launch.readinessTimeout = .ok started ∧
    env.start sdkId = startResult started
  workers : ∀ p outcomes,
    Launcher.plan launch.matrix launch.remotes scenarios s = .ok p t →
    launch.start p = .ok outcomes →
    ∀ q ∈ p.ids.zip outcomes, env.start q.1 = startResult q.2

/-- The environment that a run has met. -/
def Launch.environment (launch : Launch σ) (ids : List String) (commits : Launcher.ShaCache)
    (outcomes : List StartOutcome) : Environment where
  matrix := launch.matrix
  resolveRef repo ref :=
    match commits.get? (repo, ref) with
    | some sha => .ok sha
    | none => .error (.permanentError "")
  start sdkId :=
    match (ids.zip outcomes).lookup sdkId with
    | some o => startResult o
    | none => .error ""
  outcome := launch.outcome

end Abstraction

section Outcomes

variable {ids : List String} {outcomes : List StartOutcome} {env : Environment}
  {scenarios : List ResolvedScenario}

/-- What is read off the outcomes keeps the agents of the plan apart. -/
theorem keys_filterMap_sublist {γ : Type} (f : StartOutcome → Option γ)
    (l : List (String × StartOutcome)) :
    ((l.filterMap fun p => (f p.2).map fun c => (p.1, c)).map Prod.fst).Sublist
      (l.map Prod.fst) := by
  induction l with
  | nil => exact .slnil
  | cons p rest ih =>
      cases h : f p.2 with
      | none =>
          rw [List.filterMap_cons_none (by rw [h]; rfl)]
          exact ih.cons _
      | some c =>
          rw [List.filterMap_cons_some (by rw [h]; rfl)]
          exact ih.cons_cons _

theorem entries_readings {γ : Type} (f : StartOutcome → Option γ) (hids : ids.Nodup)
    (hlength : ids.length = outcomes.length) :
    (Dict.ofList ((ids.zip outcomes).filterMap fun p => (f p.2).map fun c => (p.1, c))).entries =
      (ids.zip outcomes).filterMap fun p => (f p.2).map fun c => (p.1, c) := by
  apply Dict.entries_ofList_of_nodup
  apply (keys_filterMap_sublist f _).nodup
  rwa [List.map_fst_zip hlength.le]

/-- An agent has come up, or its failure has a text. -/
theorem startResult_cases {o : StartOutcome} (h : o.handle.isSome ≠ o.error.isSome) :
    (∃ handle, o.handle = some handle ∧ failure o = none ∧
        startResult o = .ok ⟨handle.httpPort⟩) ∨
      ∃ text, o.handle = none ∧ failure o = some text ∧ startResult o = .error text := by
  unfold startResult failure
  cases hhandle : o.handle with
  | some handle => exact .inl ⟨handle, rfl, rfl, rfl⟩
  | none =>
      cases herror : o.error with
      | some e => exact .inr ⟨errorText e, rfl, rfl, rfl⟩
      | none =>
          rw [hhandle, herror] at h
          exact absurd rfl h

theorem planIds_eq_fst (hplan : planIds scenarios = ids) (hlength : ids.length = outcomes.length) :
    planIds scenarios = (ids.zip outcomes).map Prod.fst := by
  rw [hplan, List.map_fst_zip hlength.le]

/-- The agents that came up are those whose outcome has a handle. -/
theorem startedAgents_eq (hplan : planIds scenarios = ids) (hids : ids.Nodup)
    (hlength : ids.length = outcomes.length)
    (hstart : ∀ p ∈ ids.zip outcomes, env.start p.1 = startResult p.2)
    (hshape : ∀ o ∈ outcomes, o.handle.isSome ≠ o.error.isSome) :
    startedAgents env scenarios = fromHandles (startedHandles ids outcomes) := by
  rw [startedAgents, fromHandles, startedHandles, entries_readings StartOutcome.handle hids hlength,
    planIds_eq_fst hplan hlength, List.filterMap_map, List.map_filterMap]
  refine congrArg AgentTable.mk (List.filterMap_congr fun p hp => ?_)
  obtain ⟨handle, hhandle, -, hresult⟩ | ⟨text, hhandle, -, hresult⟩ :=
    startResult_cases (hshape p.2 (List.of_mem_zip hp).2)
  · simp [hstart p hp, hresult, hhandle, Except.toOption]
  · simp [hstart p hp, hresult, hhandle, Except.toOption]

theorem droppedPeers_eq (hplan : planIds scenarios = ids) (hids : ids.Nodup)
    (hlength : ids.length = outcomes.length)
    (hstart : ∀ p ∈ ids.zip outcomes, env.start p.1 = startResult p.2)
    (hshape : ∀ o ∈ outcomes, o.handle.isSome ≠ o.error.isSome) :
    droppedPeers env scenarios = (failedPeers ids outcomes).entries := by
  rw [droppedPeers, failedPeers, entries_readings failure hids hlength,
    planIds_eq_fst hplan hlength, List.filterMap_map]
  refine List.filterMap_congr fun p hp => ?_
  obtain ⟨handle, -, hfailure, hresult⟩ | ⟨text, -, hfailure, hresult⟩ :=
    startResult_cases (hshape p.2 (List.of_mem_zip hp).2)
  · simp [hstart p hp, hresult, hfailure]
  · simp [hstart p hp, hresult, hfailure]

end Outcomes

section Starts

variable {settings : StartSettings} {specs : List Launcher.TargetSpec}
  {schedule : Schedule specs.length} {outside : ℕ → Outside} {outcomes : List StartOutcome}

/-- Workers that all return, and their outcomes. -/
theorem exists_results (h : ∀ i spec, specs[i]? = some spec → ∃ outcome,
      Launcher.startOne spec (outside i) settings.readinessTimeout = .ok outcome) :
    ∃ outcomes : List StartOutcome, specs.mapIdx (fun i spec =>
      Launcher.startOne spec (outside i) settings.readinessTimeout) = outcomes.map .ok := by
  have hall : ∀ result ∈ specs.mapIdx (fun i spec =>
      Launcher.startOne spec (outside i) settings.readinessTimeout),
      ∃ outcome, result = .ok outcome := by
    intro result hmem
    obtain ⟨i, hi, rfl⟩ := List.mem_mapIdx.mp hmem
    exact h i _ (List.getElem?_eq_getElem hi)
  obtain ⟨outcomes, houtcomes⟩ := exists_forall₂ hall
  exact ⟨outcomes, List.forall₂_eq_eq_eq ▸ List.forall₂_map_right_iff.mpr houtcomes⟩

/-- A start that returns has the outcomes of its workers. -/
theorem results_of_startAll (h : Launcher.startAll settings specs schedule outside = .ok outcomes) :
    specs.mapIdx (fun i spec =>
      Launcher.startOne spec (outside i) settings.readinessTimeout) = outcomes.map .ok := by
  by_cases hspecs : specs = []
  · subst hspecs
    cases h
    rfl
  · obtain ⟨hlines, hpool, hreturned⟩ := Launcher.returned_of_startAll hspecs h
    obtain ⟨found, hfound⟩ := exists_results hreturned
    have hstart : Launcher.startAll settings specs schedule outside = .ok found :=
      Launcher.startAll_of_returned hspecs hlines hpool hfound
    obtain rfl := Except.ok.inj (h.symm.trans hstart)
    exact hfound

theorem startAll_raises_iff (hlines : Launcher.LinesUp settings specs) :
    (∃ e, Launcher.startAll settings specs schedule outside = .error e) ↔
      specs ≠ [] ∧ ¬ (Launcher.AsksForWorkers settings ∧
        ∀ i spec, specs[i]? = some spec → Launcher.StagesHandle spec (outside i)) := by
  constructor
  · rintro ⟨e, he⟩
    refine ⟨?_, ?_⟩
    · rintro rfl
      cases he
    · rintro ⟨hpool, hhandled⟩
      have hspecs : specs ≠ [] := by
        rintro rfl
        cases he
      obtain ⟨outcomes, houtcomes⟩ := exists_results fun i spec hspec =>
        Launcher.startOne_returns_iff.mpr (hhandled i spec hspec)
      rw [Launcher.startAll_of_returned hspecs hlines hpool houtcomes] at he
      cases he
  · rintro ⟨hspecs, hnot⟩
    cases hstart : Launcher.startAll settings specs schedule outside with
    | error e => exact ⟨e, rfl⟩
    | ok outcomes =>
        obtain ⟨-, hpool, hreturned⟩ := Launcher.returned_of_startAll hspecs hstart
        exact absurd ⟨hpool, fun i spec hspec =>
          Launcher.startOne_returns_iff.mp (hreturned i spec hspec)⟩ hnot

end Starts

section Runs

variable {σ : Type} {launch : Launch σ} {scenarios : List ResolvedScenario}
  {s t : PlanState σ} {p : Launcher.Plan} {outcomes : List StartOutcome}

/-- Where every agent has its spec, the abstract plan is made. -/
theorem plan_returns {env : Environment} {ids : List String}
    (h : ∀ sdkId ∈ ids, ∃ spec, SpecOf env sdkId spec)
    (shaCache : Dict (String × String) String) :
    ∃ specs, buildSpecs env shaCache ids = .ok specs := by
  induction ids generalizing shaCache with
  | nil => exact ⟨[], rfl⟩
  | cons sdkId rest ih =>
      have hrest : ∀ other ∈ rest, ∃ spec, SpecOf env other spec :=
        fun other hother => h other (List.mem_cons_of_mem _ hother)
      obtain ⟨spec, ⟨hsut, -⟩ | ⟨hsut, entry, sha, hentry, hsha, -⟩⟩ := h sdkId List.mem_cons_self
      · obtain ⟨specs, hspecs⟩ := ih hrest shaCache
        refine ⟨(sdkId, .mount) :: specs, ?_⟩
        rw [buildSpecs, if_pos hsut, hspecs]
        rfl
      · obtain ⟨found, hfound⟩ : ∃ found, resolveSha env shaCache entry = .ok found := by
          unfold resolveSha
          cases shaCache.get? (entry.repo, entry.ref) with
          | some known => exact ⟨known, rfl⟩
          | none => exact ⟨sha, hsha⟩
        obtain ⟨specs, hspecs⟩ := ih hrest (shaCache.set (entry.repo, entry.ref) found)
        refine ⟨(sdkId, .checkout entry.repo found) :: specs, ?_⟩
        rw [buildSpecs, if_neg hsut, hentry]
        simp only [hfound, hspecs, ok_bind, pure_eq_ok]

theorem specOf_of_pinnedTo {ids : List String} {commits : Launcher.ShaCache} {sdkId : String}
    {spec : Launcher.TargetSpec}
    (hresolved : ∀ key sha, commits.get? key = some sha → Launcher.isSha sha.toList = true)
    (h : Launcher.PinnedTo launch.matrix commits sdkId spec) :
    SpecOf (launch.environment ids commits outcomes) sdkId spec := by
  obtain hmount | ⟨key, sha, ⟨hsut, entry, hentry, rfl⟩, hget, hspec⟩ := h
  · exact .inl hmount
  · refine .inr ⟨hsut, entry, sha, hentry, ?_, hresolved _ _ hget, hspec⟩
    simp only [Launch.environment, hget]

/-- Every lookup and every worker of a run is one of the environment that the run has met. -/
theorem realises_environment {commits : Launcher.ShaCache}
    (hplan : Launcher.plan launch.matrix launch.remotes scenarios s = .ok p t)
    (hplanned : Launcher.Planned launch.matrix launch.remotes (planIds scenarios) s t commits p)
    (hstarted : launch.start p = .ok outcomes)
    (hstart : ∀ q ∈ p.ids.zip outcomes,
      (launch.environment p.ids commits outcomes).start q.1 = startResult q.2) :
    Realises launch scenarios s t (launch.environment p.ids commits outcomes) where
  matrix := rfl
  outcome := rfl
  answered := by
    refine ⟨commits.entries, hplanned.answered, hplanned.lookups, fun repo ref sha => ?_⟩
    rw [← Dict.get?_eq_some_iff]
    simp only [Launch.environment]
    cases commits.get? (repo, ref) <;> simp
  agents i sdkId hi := by
    rw [← hplanned.agents] at hi
    obtain ⟨hlt, hid⟩ := List.getElem?_eq_some_iff.mp hi
    have hspec : i < p.specs.length := hplanned.pinned.length_eq ▸ hlt
    have hat := congrArg (·[i]?) (results_of_startAll hstarted)
    simp only [List.getElem?_mapIdx, List.getElem?_eq_getElem hspec, Option.map_some,
      List.getElem?_map] at hat
    obtain ⟨o, ho, hone⟩ := Option.map_eq_some_iff.mp hat.symm
    refine ⟨p.specs[i], o, ?_, hone.symm, ?_⟩
    · have hpin := List.forall₂_iff_get.mp hplanned.pinned
      exact hid ▸ specOf_of_pinnedTo hplanned.resolved (hpin.2 i hlt hspec)
    · exact hstart (sdkId, o) (List.mem_of_getElem? (i := i) (by
        rw [List.getElem?_zip_eq_some]
        exact ⟨hi, ho⟩))
  workers p' outcomes' hplan' hstarted' q hq := by
    cases hplan.symm.trans hplan'
    cases hstarted.symm.trans hstarted'
    exact hstart q hq

/-- A run whose agents were started is the abstract one in the environment it has met. -/
theorem refines_of_started
    (hplan : Launcher.plan launch.matrix launch.remotes scenarios s = .ok p t)
    (hstart : launch.start p = .ok outcomes) :
    ∃ env, Realises launch scenarios s t env ∧ runLocked env scenarios =
      runStarted scenarios (failedPeers p.ids outcomes).entries
        (fromHandles (startedHandles p.ids outcomes)) launch.outcome := by
  obtain ⟨commits, hplanned⟩ := Launcher.plan_eq_ok hplan
  have hresults := results_of_startAll hstart
  have hlength : p.ids.length = outcomes.length := by
    have hmap := congrArg List.length hresults
    rw [List.length_mapIdx, List.length_map] at hmap
    exact hplanned.pinned.length_eq.trans hmap
  have hids : p.ids.Nodup := hplanned.agents ▸ Launcher.nodup_planIds
  have hkeys : ((p.ids.zip outcomes).map Prod.fst).Nodup := by
    rwa [List.map_fst_zip hlength.le]
  let env := launch.environment p.ids commits outcomes
  have hread : ∀ q ∈ p.ids.zip outcomes, env.start q.1 = startResult q.2 := by
    intro q hq
    have hlookup := (Dict.lookup_eq_some_iff hkeys).mpr hq
    simp only [env, Launch.environment, hlookup]
  have hshape := (Launcher.shape_of_results hresults).2
  have hrealises : Realises launch scenarios s t env :=
    realises_environment hplan hplanned hstart hread
  refine ⟨env, hrealises, ?_⟩
  have hspecs : ∀ sdkId ∈ planIds scenarios, ∃ spec, SpecOf env sdkId spec := by
    intro sdkId hmem
    obtain ⟨i, hi⟩ := List.mem_iff_getElem?.mp hmem
    obtain ⟨spec, -, hspec, -⟩ := hrealises.agents i sdkId hi
    exact ⟨spec, hspec⟩
  obtain ⟨specs, hplanEnv⟩ := plan_returns hspecs Dict.empty
  have hagents : startedAgents env scenarios = fromHandles (startedHandles p.ids outcomes) :=
    startedAgents_eq hplanned.agents.symm hids hlength hread hshape
  have hdropped : droppedPeers env scenarios = (failedPeers p.ids outcomes).entries :=
    droppedPeers_eq hplanned.agents.symm hids hlength hread hshape
  rw [runLocked, plan, hplanEnv, ok_bind, hagents, hdropped]
  rfl

theorem linesUp_settings (h : p.ids.length = p.specs.length) :
    Launcher.LinesUp (launch.settings p.ids) p.specs := by
  intro names hnames
  obtain rfl := Option.some.inj hnames
  rw [List.length_map, h]

/-- What a run without scenarios meets. -/
theorem realises_nil (launch : Launch σ) (s : PlanState σ) :
    Realises launch [] s s (launch.environment [] Dict.empty []) where
  matrix := rfl
  outcome := rfl
  answered := by
    refine ⟨[], .none s.outside, (List.append_nil _).symm, fun repo ref sha => ?_⟩
    exact iff_of_false (fun h => by cases h) List.not_mem_nil
  agents i sdkId hi := by
    have hempty : planIds [] = [] := rfl
    rw [hempty] at hi
    cases hi
  workers p outcomes hplan _ q hq := by
    obtain ⟨commits, hplanned⟩ := Launcher.plan_eq_ok hplan
    have hids : p.ids = [] := hplanned.agents
    rw [hids] at hq
    cases hq

theorem launched_eq_ok {report : RunReport}
    (h : launch.runScenarios scenarios s = .ok report t) :
    ∃ env, Realises launch scenarios s t env ∧ runScenarios env scenarios = .ok report := by
  unfold Launch.runScenarios at h
  split at h
  · cases h
  · rename_i hsome
    obtain ⟨p, u, hplan, h⟩ := Effects.bind_eq_ok_iff.mp h
    obtain ⟨outcomes, v, hstart, h⟩ := Effects.bind_eq_ok_iff.mp h
    obtain ⟨hstarted, rfl⟩ := Effects.lift_apply_eq_ok_iff.mp hstart
    obtain ⟨hrun, rfl⟩ := Effects.lift_apply_eq_ok_iff.mp h
    obtain ⟨env, hrealises, heq⟩ := refines_of_started (Effects.adaptExcept_eq_ok_iff.mp hplan)
      (mapError_eq_ok_iff.mp hstarted)
    refine ⟨env, hrealises, ?_⟩
    rw [runScenarios, if_neg hsome, heq]
    exact mapError_eq_ok_iff.mp hrun

theorem launched_eq_error {e : RunError}
    (h : launch.runScenarios scenarios s = .error (.running e) t) :
    ∃ env, Realises launch scenarios s t env ∧ runScenarios env scenarios = .error e := by
  unfold Launch.runScenarios at h
  split at h
  · rename_i hnone
    obtain rfl := List.isEmpty_iff.mp hnone
    cases h
    exact ⟨_, realises_nil launch s, rfl⟩
  · rename_i hsome
    obtain h | ⟨p, u, hplan, h⟩ := Effects.bind_eq_error_iff.mp h
    · obtain ⟨e', -, he⟩ := Effects.adaptExcept_eq_error_iff.mp h
      cases he
    · obtain h | ⟨outcomes, v, hstart, h⟩ := Effects.bind_eq_error_iff.mp h
      · obtain ⟨e', -, he⟩ := mapError_eq_error_iff.mp (Effects.lift_apply_eq_error_iff.mp h).1
        cases he
      · obtain ⟨hstarted, rfl⟩ := Effects.lift_apply_eq_ok_iff.mp hstart
        obtain ⟨hrun, rfl⟩ := Effects.lift_apply_eq_error_iff.mp h
        obtain ⟨e', hrun, he⟩ := mapError_eq_error_iff.mp hrun
        cases he
        obtain ⟨env, hrealises, heq⟩ := refines_of_started (Effects.adaptExcept_eq_ok_iff.mp hplan)
          (mapError_eq_ok_iff.mp hstarted)
        refine ⟨env, hrealises, ?_⟩
        rw [runScenarios, if_neg hsome, heq]
        exact hrun

/-- A planned run stops in its start just where `start_all` raises. -/
theorem launched_stops_iff
    (hplan : Launcher.plan launch.matrix launch.remotes scenarios s = .ok p t) :
    (∃ e, launch.runScenarios scenarios s = .error (.starting e) t) ↔
      ∃ e, launch.start p = .error e := by
  obtain ⟨commits, hplanned⟩ := Launcher.plan_eq_ok hplan
  have hplan' : EStateM.adaptExcept LaunchFailure.planning
      (Launcher.plan launch.matrix launch.remotes scenarios) s = .ok p t :=
    Effects.adaptExcept_eq_ok_iff.mpr hplan
  constructor
  · rintro ⟨e, h⟩
    unfold Launch.runScenarios at h
    split at h
    · cases h
    · rw [Launch.runLocked, Effects.bind_apply_of_ok hplan'] at h
      obtain h | ⟨outcomes, v, -, h⟩ := Effects.bind_eq_error_iff.mp h
      · obtain ⟨e', he', -⟩ := mapError_eq_error_iff.mp (Effects.lift_apply_eq_error_iff.mp h).1
        exact ⟨e', he'⟩
      · obtain ⟨e', -, he⟩ := mapError_eq_error_iff.mp (Effects.lift_apply_eq_error_iff.mp h).1
        cases he
  · rintro ⟨e, h⟩
    have hsome : ¬ scenarios.isEmpty = true := by
      intro hnone
      obtain rfl := List.isEmpty_iff.mp hnone
      have hids : p.ids = [] := hplanned.agents
      have hspecs : p.specs = [] := by
        have hlength := hplanned.pinned.length_eq
        rw [hids] at hlength
        exact List.eq_nil_of_length_eq_zero hlength.symm
      rw [Launch.start, Launcher.startAll, if_pos (by rw [hspecs]; rfl)] at h
      cases h
    refine ⟨e, ?_⟩
    rw [Launch.runScenarios, if_neg hsome, Launch.runLocked, Effects.bind_apply_of_ok hplan']
    apply Effects.bind_apply_of_error
    rw [h]
    rfl

end Runs

/-- A launched run that comes to its scenarios is an abstract run, with the same report or the
same error, in an environment that answers as the remotes and the workers of the run did. A
planned run stops before only where the number of workers is refused, or a stage of some agent
meets an exception that it does not handle. -/
theorem launched_runs_refine {σ : Type} (launch : Launch σ) (scenarios : List ResolvedScenario)
    (s : PlanState σ) :
    (∀ report t, launch.runScenarios scenarios s = .ok report t →
      ∃ env, Realises launch scenarios s t env ∧ runScenarios env scenarios = .ok report) ∧
    (∀ e t, launch.runScenarios scenarios s = .error (.running e) t →
      ∃ env, Realises launch scenarios s t env ∧ runScenarios env scenarios = .error e) ∧
    ∀ p t, Launcher.plan launch.matrix launch.remotes scenarios s = .ok p t →
      ((∃ e, launch.runScenarios scenarios s = .error (.starting e) t) ↔
        p.specs ≠ [] ∧ ¬ (Launcher.AsksForWorkers (launch.settings p.ids) ∧
          ∀ i spec, p.specs[i]? = some spec →
            Launcher.StagesHandle spec (launch.outside i))) := by
  refine ⟨fun _ _ => launched_eq_ok, fun _ _ => launched_eq_error, fun p t hplan => ?_⟩
  obtain ⟨commits, hplanned⟩ := Launcher.plan_eq_ok hplan
  rw [launched_stops_iff hplan, Launch.start]
  exact startAll_raises_iff (linesUp_settings hplanned.pinned.length_eq)

end A2aItk.Execution
