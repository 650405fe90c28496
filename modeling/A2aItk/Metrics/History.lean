import A2aItk.Metrics.ProcessResults
import A2aItk.Python.Windows

/-!
# The nightly history

A night of `run_itk_shared.sh`: the answer of `/run` is validated by `itk_report.py` and
recorded by `process_results.py`, which publishes the last entries of the history.

## Implementation notes

Of a night, the outside decides how its agents and its traversals go, whether the two requests
get through, and whether the file can be written. What is published is `none` before the first
night.
-/

namespace A2aItk.Metrics

open Python Scenarios
open Execution (Environment Outcome RunError RunTestsResponse Runnable ScenarioResult answer)

section Scripts

/-- A result as `process_results.py` finds it. -/
inductive RawResult
  | flag (passed : Bool)
  | details (d : Details)
  | unusable (typeName : String)

/-- A `/run` response, as far as the scripts read it. -/
structure RawResults where
  allPassed : Bool
  results : Dict String RawResult

/-- The body of a `/run` response: one without a mapping of results, such as an error envelope
or no JSON, or one with it. -/
inductive RawResponse
  | malformed
  | run (r : RawResults)

/-- `itk_report.validate`. -/
def validate : RawResponse → Option RawResults
  | .malformed => none
  | .run r => if r.results.entries.isEmpty then none else some r

/-- The file of the scenario definitions. -/
inductive ScenarioFile
  | absent
  | broken
  | tests (l : List Definition)

/-- `load_scenarios`; an exit is `none`. -/
def loadScenarios (required : Bool) : ScenarioFile → Option (List Definition)
  | .absent => if required then none else some []
  | .broken => none
  | .tests l => some l

/-- `is_self_describing`. -/
def RawResult.isSelfDescribing : RawResult → Bool
  | details d => Metrics.isSelfDescribing d
  | _ => false

/-- One run of the history. -/
structure HistoryRun where
  timestamp : String
  commitSha : String
  githubRunId : String
  allPassed : Bool
  scenarios : List Record

/-- What names a night. -/
structure Stamp where
  timestamp : String
  commitSha : String := "local-dev"
  githubRunId : String := "0"

/-- The record of a result, or why it is dropped. -/
def compileResult (base : List Definition) (name : String) : RawResult → Except String Record
  | .flag passed => recordOf base name { passed := some passed }
  | .details d => recordOf base name d
  | .unusable typeName => .error ("unusable result type " ++ typeName)

/-- The loop over the results: the records, and what is dropped. -/
def compileScenarios (base : List Definition) :
    List (String × RawResult) → List Record × List (String × String)
  | [] => ([], [])
  | (name, result) :: rest =>
      let others := compileScenarios base rest
      match compileResult base name result with
      | .ok record => (record :: others.1, others.2)
      | .error why => (others.1, (name, why) :: others.2)

/-- `process_results.main`: the history it writes; an exit before that is `none`. What is
fetched is `none` where the history cannot be read. -/
def processResults (data : RawResults) (fetched : Option (List HistoryRun)) (file : ScenarioFile)
    (limit : Option ℤ) (stamp : Stamp) : Option (List HistoryRun) := do
  let history ← fetched
  let base ← loadScenarios (!data.results.values.all RawResult.isSelfDescribing) file
  if data.results.entries.isEmpty then none
  let compiled := compileScenarios base data.results.entries
  if !compiled.2.isEmpty then none
  let limit ← limit
  let run : HistoryRun := {
    timestamp := stamp.timestamp
    commitSha := stamp.commitSha
    githubRunId := stamp.githubRunId
    allPassed := data.allPassed
    scenarios := compiled.1 }
  pure (pruned limit (history ++ [run]))

end Scripts

section Nights

/-- A night of one SDK. -/
structure Night where
  env : Environment
  batch : List ResolvedScenario
  /-- Whether the POST to `/run` gets an answer in time. -/
  answered : Bool
  /-- Whether the history can be fetched, where there is one. -/
  fetches : Bool
  file : ScenarioFile
  stamp : Stamp
  /-- Whether the file is written and uploaded. -/
  saved : Bool

/-- `TestResultDetails` as JSON. -/
def rawResult (r : ScenarioResult) : RawResult :=
  .details {
    passed := some r.passed
    sdks := some r.sdks
    edges := r.edges
    protocols := r.protocols
    behavior := r.behavior
    streaming := some r.streaming }

def rawResponse (response : RunTestsResponse) : RawResults where
  allPassed := response.allPassed
  results := ⟨response.results.entries.map fun entry => (entry.1, rawResult entry.2), by
    rw [List.map_map]
    exact response.results.distinct⟩

/-- What the service answers to the batch of a night: an error of HTTP has no results. -/
def Night.response (night : Night) : RawResponse :=
  match answer night.env night.batch with
  | .ok response => .run (rawResponse response)
  | .error _ => .malformed

/-- The asset after a night. -/
def Night.publish (limit : Option ℤ) (published : Option (List HistoryRun)) (night : Night) :
    Option (List HistoryRun) :=
  if !night.answered then published
  else match validate night.response with
    | none => published
    | some data =>
        let fetched := if night.fetches then some (published.getD []) else none
        match processResults data fetched night.file limit night.stamp with
        | none => published
        | some history => if night.saved then some history else published

end Nights

section Records

variable {env : Environment} {batch : List ResolvedScenario} {response : RunTestsResponse}

/-- The details of a result of the service. -/
def detailsOf (r : ScenarioResult) : Details where
  passed := some r.passed
  sdks := some r.sdks
  edges := r.edges
  protocols := r.protocols
  behavior := r.behavior
  streaming := some r.streaming

/-- Every result names its behavior. -/
def Described (results : Dict String ScenarioResult) : Prop :=
  ∀ entry ∈ results.entries, entry.2.behavior.isSome = true

theorem described_update {results : Dict String ScenarioResult}
    {added : List (String × ScenarioResult)} (h : Described results)
    (hadded : ∀ entry ∈ added, entry.2.behavior.isSome = true) :
    Described (results.update added) := by
  rintro ⟨name, r⟩ hentry
  rcases Dict.mem_of_get?_update (Dict.get?_eq_some_iff.mpr hentry) with hmem | hbefore
  · exact hadded _ hmem
  · exact h _ (Dict.get?_eq_some_iff.mp hbefore)

theorem described_empty : Described Dict.empty := fun _ h => by cases h

theorem described_executeAll {agents : Traversal.AgentTable} {outcome : ℕ → ℕ → Outcome} {i : ℕ}
    {runnable : List Runnable} {results final : Dict String ScenarioResult}
    (hresults : Described results)
    (h : Execution.executeAll agents outcome i runnable results = .ok final) :
    Described final := by
  induction runnable generalizing i results with
  | nil =>
      cases h
      exact hresults
  | cons r rest ih =>
      obtain ⟨raw, -, h⟩ := bind_eq_ok_iff.mp h
      apply ih _ h
      apply described_update hresults
      intro entry hentry
      obtain ⟨test, -, rfl⟩ := List.mem_map.mp hentry
      rfl

theorem described_answer (h : answer env batch = .ok response) : Described response.results := by
  unfold answer at h
  split at h
  · rename_i report hreport
    cases h
    obtain ⟨selection, -, -, hexec, -⟩ := Execution.runScenarios_eq_ok hreport
    exact described_executeAll described_empty hexec
  · cases h
    apply described_update described_empty
    intro entry hentry
    obtain ⟨scenario, -, rfl⟩ := List.mem_map.mp hentry
    rfl
  · cases h

/-- The records of results that describe themselves: none is dropped. -/
theorem compileScenarios_described (base : List Definition)
    {entries : List (String × ScenarioResult)}
    (h : ∀ entry ∈ entries, entry.2.behavior.isSome = true) :
    compileScenarios base (entries.map fun entry => (entry.1, rawResult entry.2)) =
      (entries.map fun entry =>
        buildRecord entry.1 (detailsOf entry.2) (baseOf base entry.1), []) := by
  induction entries with
  | nil => rfl
  | cons entry rest ih =>
      rw [List.forall_mem_cons] at h
      have hself : Metrics.isSelfDescribing (detailsOf entry.2) = true := by
        rw [Metrics.isSelfDescribing, detailsOf, h.1, Bool.or_true]
      have hrecord : compileResult base entry.1 (rawResult entry.2) =
          .ok (buildRecord entry.1 (detailsOf entry.2) (baseOf base entry.1)) := by
        change recordOf base entry.1 (detailsOf entry.2) = _
        rw [recordOf, hself, Bool.not_true, Bool.and_false, if_neg Bool.false_ne_true]
      rw [List.map_cons, compileScenarios, ih h.2, hrecord]
      rfl

/-- The verdict of an answer is that of its results, of which there is one at least where the
cluster failed. -/
theorem allPassed_of_answer (h : answer env batch = .ok response)
    (hne : response.results.entries ≠ []) :
    response.allPassed = response.results.values.all ScenarioResult.passed := by
  unfold answer at h
  split at h
  · cases h
    rfl
  · rename_i failures summary _
    cases h
    obtain ⟨entry, hentry⟩ := List.exists_mem_of_ne_nil _ hne
    have hmem := Dict.mem_of_get?_ofList (Dict.get?_eq_some_iff.mpr hentry)
    obtain ⟨scenario, -, heq⟩ := List.mem_map.mp hmem
    have hfailed : entry.2.passed = false := by
      rw [← (Prod.mk.inj heq).2]
      rfl
    exact (List.all_eq_false.mpr ⟨entry.2, List.mem_map_of_mem hentry, by simp [hfailed]⟩).symm
  · cases h

end Records

section Window

/-- The run that a response makes in the history. -/
def historyRun (stamp : Stamp) (response : RunTestsResponse) (base : List Definition) :
    HistoryRun where
  timestamp := stamp.timestamp
  commitSha := stamp.commitSha
  githubRunId := stamp.githubRunId
  allPassed := response.allPassed
  scenarios := response.results.entries.map fun entry =>
    buildRecord entry.1 (detailsOf entry.2) (baseOf base entry.1)

/-- What an answer of the service adds to the history. -/
def recordedOf (night : Night) : Except RunError RunTestsResponse → Option HistoryRun
  | .error _ => none
  | .ok response =>
      if response.results.entries.isEmpty then none
      else (loadScenarios false night.file).map (historyRun night.stamp response)

/-- What a night adds to the history, if it gets that far. -/
def Night.recorded (night : Night) : Option HistoryRun :=
  if night.answered && night.fetches && night.saved then
    recordedOf night (answer night.env night.batch)
  else none

/-- `process_results.py` on an answer of the service. -/
theorem processResults_rawResponse {response : RunTestsResponse} (h : Described response.results)
    (hne : response.results.entries.isEmpty = false) (history : List HistoryRun)
    (file : ScenarioFile) (limit : ℤ) (stamp : Stamp) :
    processResults (rawResponse response) (some history) file (some limit) stamp =
      (loadScenarios false file).map fun base =>
        pruned limit (history ++ [historyRun stamp response base]) := by
  have hself : (rawResponse response).results.values.all RawResult.isSelfDescribing = true := by
    rw [List.all_eq_true]
    intro raw hraw
    obtain ⟨entry, hentry, rfl⟩ := List.mem_map.mp hraw
    obtain ⟨result, hresult, rfl⟩ := List.mem_map.mp hentry
    change Metrics.isSelfDescribing (detailsOf result.2) = true
    rw [Metrics.isSelfDescribing, detailsOf, h result hresult, Bool.or_true]
  have hentries := List.isEmpty_eq_false_iff.mp hne
  unfold processResults
  rw [hself]
  cases hfile : loadScenarios false file with
  | none => simp [hfile]
  | some base =>
      simp [hfile, hentries, compileScenarios_described base h, historyRun, rawResponse]

/-- A night of the scripts appends what the night adds, cut to the window. -/
theorem publish_eq (limit : ℤ) (published : Option (List HistoryRun)) (night : Night) :
    night.publish (some limit) published = republish limit published night.recorded := by
  unfold Night.publish Night.recorded Night.response
  cases night.answered with
  | false => rfl
  | true =>
      cases hanswer : answer night.env night.batch with
      | error e =>
          cases night.fetches <;> cases night.saved <;> rfl
      | ok response =>
          have hdescribed := described_answer hanswer
          cases hempty : response.results.entries.isEmpty with
          | true =>
              have hvalidate : validate (.run (rawResponse response)) = none := by
                rw [List.isEmpty_iff] at hempty
                simp [validate, rawResponse, hempty]
              cases night.fetches <;> cases night.saved <;>
                simp [hvalidate, recordedOf, republish, List.isEmpty_iff.mp hempty]
          | false =>
              have hvalidate : validate (.run (rawResponse response)) =
                  some (rawResponse response) := by
                have hentries := List.isEmpty_eq_false_iff.mp hempty
                simp [validate, rawResponse, hentries]
              cases night.fetches with
              | false => simp [hvalidate, processResults, republish]
              | true =>
                  have hprocess := processResults_rawResponse hdescribed hempty
                    (published.getD []) night.file limit night.stamp
                  simp only [hvalidate, reduceIte, hprocess, recordedOf, hempty]
                  cases loadScenarios false night.file with
                  | none => cases night.saved <;> rfl
                  | some base => cases night.saved <;> rfl

/-- A limit that is no number stops every night. -/
theorem publish_none (published : Option (List HistoryRun)) (night : Night) :
    night.publish none published = published := by
  unfold Night.publish
  cases night.answered with
  | false => rfl
  | true =>
      cases validate night.response with
      | none => rfl
      | some data =>
          have hstop (fetched : Option (List HistoryRun)) :
              processResults data fetched night.file none night.stamp = none := by
            unfold processResults
            cases fetched with
            | none => rfl
            | some history =>
                cases loadScenarios (!data.results.values.all RawResult.isSelfDescribing)
                  night.file with
                | none => rfl
                | some base =>
                    simp only [Option.bind_eq_bind, Option.bind_some]
                    split
                    · rfl
                    · split
                      · rfl
                      · rfl
          simp [hstop]

/-- What nights in a row add. -/
def recordedRuns (nights : List Night) : List HistoryRun :=
  (nights.map Night.recorded).reduceOption

theorem foldl_publish (limit : ℤ) (published : Option (List HistoryRun)) (nights : List Night) :
    nights.foldl (fun published night => night.publish (some limit) published) published =
      (nights.map Night.recorded).foldl (republish limit) published := by
  rw [List.foldl_map]
  congr 1
  ext1 published
  ext1 night
  exact publish_eq limit published night

end Window

section Contents

variable {night : Night} {run : HistoryRun}

/-- A run of the history is the answer of a night. -/
structure Attests (night : Night) (run : HistoryRun) : Prop where
  stamped : run.timestamp = night.stamp.timestamp ∧ run.commitSha = night.stamp.commitSha ∧
    run.githubRunId = night.stamp.githubRunId
  answered : ∃ response, answer night.env night.batch = .ok response ∧
    run.scenarios.map (fun record => (record.name, record.passed)) =
      response.results.entries.map (fun entry => (entry.1, entry.2.passed))
  /-- There is a record for every scenario that ran, and at least one. -/
  nonempty : run.scenarios ≠ []
  verdict : run.allPassed = run.scenarios.all Record.passed

/-- The cluster of a night did not come up. -/
def Night.down (night : Night) : Prop :=
  ∃ failures summary,
    Execution.runScenarios night.env night.batch = .error (.clusterStartup failures summary)

/-- A night gets its answer into the history: the service answers, the history can be fetched
and written, and the scenario file is not broken. -/
structure Night.Recordable (night : Night) : Prop where
  answered : night.answered = true
  fetches : night.fetches = true
  readable : night.file ≠ .broken
  saved : night.saved = true

/-- Any file but a broken one can be read where it is not required. -/
theorem exists_loadScenarios_iff {file : ScenarioFile} :
    (∃ base, loadScenarios false file = some base) ↔ file ≠ .broken := by
  cases file with
  | absent => exact iff_of_true ⟨[], rfl⟩ (fun h => by cases h)
  | broken => exact iff_of_false (fun ⟨_, h⟩ => by cases h) (fun h => h rfl)
  | tests l => exact iff_of_true ⟨l, rfl⟩ (fun h => by cases h)

theorem recorded_eq_some_iff :
    night.recorded = some run ↔ night.Recordable ∧ ∃ response base,
      answer night.env night.batch = .ok response ∧ response.results.entries ≠ [] ∧
        loadScenarios false night.file = some base ∧
        historyRun night.stamp response base = run := by
  unfold Night.recorded
  constructor
  · intro h
    split at h
    · rename_i hflags
      simp only [Bool.and_eq_true] at hflags
      obtain ⟨⟨hanswered, hfetches⟩, hsaved⟩ := hflags
      cases hanswer : answer night.env night.batch with
      | error e =>
          rw [hanswer] at h
          cases h
      | ok response =>
          rw [hanswer, recordedOf] at h
          split at h
          · cases h
          · rename_i hne
            obtain ⟨base, hfile, hrun⟩ := Option.map_eq_some_iff.mp h
            have hreadable := exists_loadScenarios_iff.mp ⟨base, hfile⟩
            exact ⟨⟨hanswered, hfetches, hreadable, hsaved⟩, response, base, rfl,
              by simpa using hne, hfile, hrun⟩
    · cases h
  · rintro ⟨hnight, response, base, hanswer, hne, hfile, rfl⟩
    have hentries : response.results.entries.isEmpty = false := by simpa using hne
    rw [hnight.answered, hnight.fetches, hnight.saved, hanswer, recordedOf, hentries, hfile]
    rfl

theorem recorded_ne_none_iff :
    night.recorded ≠ none ↔ night.Recordable ∧ ∃ response,
      answer night.env night.batch = .ok response ∧ response.results.entries ≠ [] := by
  rw [Option.ne_none_iff_exists']
  constructor
  · rintro ⟨run, hrun⟩
    obtain ⟨hnight, response, base, hanswer, hne, -, -⟩ := recorded_eq_some_iff.mp hrun
    exact ⟨hnight, response, hanswer, hne⟩
  · rintro ⟨hnight, response, hanswer, hne⟩
    obtain ⟨base, hbase⟩ := exists_loadScenarios_iff.mpr hnight.readable
    exact ⟨_, recorded_eq_some_iff.mpr ⟨hnight, response, base, hanswer, hne, hbase, rfl⟩⟩

theorem attests_of_recorded (h : night.recorded = some run) : Attests night run := by
  obtain ⟨-, response, base, hanswer, hne, -, rfl⟩ := recorded_eq_some_iff.mp h
  refine ⟨⟨rfl, rfl, rfl⟩, ⟨response, hanswer, ?_⟩, ?_, ?_⟩
  · rw [historyRun, List.map_map]
    rfl
  · exact fun hnil => hne (List.map_eq_nil_iff.mp hnil)
  · calc
      response.allPassed = response.results.values.all ScenarioResult.passed :=
        allPassed_of_answer hanswer hne
      _ = (historyRun night.stamp response base).scenarios.all Record.passed := by
        rw [historyRun, Dict.values, List.all_map, List.all_map]
        rfl

/-- A night without a cluster is recorded all the same, and nothing of it passed. -/
theorem recorded_of_down (hdown : night.down) (hnight : night.Recordable) :
    ∃ run, night.recorded = some run ∧ run.allPassed = false ∧
      (∀ record ∈ run.scenarios, record.passed = false) ∧
      ∀ scenario ∈ night.batch, scenario.name ∈ run.scenarios.map Record.name := by
  obtain ⟨failures, summary, hrun⟩ := hdown
  have hanswer : answer night.env night.batch =
      .ok (Execution.clusterFailureResponse night.batch failures summary) := by
    rw [answer, hrun]
  obtain ⟨base, hbase⟩ := exists_loadScenarios_iff.mpr hnight.readable
  have hkeys : ∀ scenario ∈ night.batch, scenario.name ∈
      ((Execution.clusterFailureResponse night.batch failures summary).results.entries.map
        Prod.fst) := by
    intro scenario hscenario
    have hset := Dict.isSome_get?_update (d := Dict.empty)
      (l := night.batch.map fun s =>
        (s.name, Execution.scenarioResult s ⟨s.name, false, s.sdks, s.edges⟩)) (k := scenario.name)
    obtain ⟨result, hresult⟩ := Option.isSome_iff_exists.mp (hset.mpr (.inr (by
      rw [List.map_map]
      exact List.mem_map_of_mem hscenario)))
    exact List.mem_map_of_mem (Dict.get?_eq_some_iff.mp hresult)
  have hbatch : night.batch ≠ [] := by
    intro hnil
    rw [Execution.runScenarios, hnil] at hrun
    cases hrun
  obtain ⟨scenario, hscenario⟩ := List.exists_mem_of_ne_nil _ hbatch
  have hne : (Execution.clusterFailureResponse night.batch failures summary).results.entries ≠
      [] := by
    intro hnil
    have := hkeys scenario hscenario
    rw [hnil] at this
    cases this
  refine ⟨_, recorded_eq_some_iff.mpr ⟨hnight, _, base, hanswer, hne, hbase, rfl⟩, rfl, ?_, ?_⟩
  · intro record hrecord
    obtain ⟨entry, hentry, rfl⟩ := List.mem_map.mp hrecord
    have hmem := Dict.mem_of_get?_ofList (Dict.get?_eq_some_iff.mpr hentry)
    obtain ⟨s, -, heq⟩ := List.mem_map.mp hmem
    obtain ⟨-, hresult⟩ := Prod.mk.inj heq
    change entry.2.passed = false
    rw [← hresult]
    rfl
  · intro s hs
    obtain ⟨entry, hentry, hname⟩ := List.mem_map.mp (hkeys s hs)
    rw [historyRun, List.map_map]
    exact List.mem_map.mpr ⟨entry, hentry, hname⟩

end Contents

/-- Over any nights, the published history is the last runs of all that were recorded, in
order; each is what the service answered that night, and a night whose cluster did not come
up is there too, all red. -/
theorem nights_keep_window (n : ℕ) (published : Option (List HistoryRun)) (nights : List Night) :
    (nights.foldl (fun published night => night.publish (some (n + 1)) published) published =
        if recordedRuns nights = [] then published
        else some ((published.getD [] ++ recordedRuns nights).rtake (n + 1))) ∧
      (nights.foldl (fun published night => night.publish (some 0) published) published).getD [] =
        published.getD [] ++ recordedRuns nights ∧
      nights.foldl (fun published night => night.publish none published) published = published ∧
      (∀ night : Night, night.recorded ≠ none ↔ night.Recordable ∧ ∃ response,
        answer night.env night.batch = .ok response ∧ response.results.entries ≠ []) ∧
      (∀ night run, night.recorded = some run → Attests night run) ∧
      ∀ night : Night, night.down → night.Recordable →
        ∃ run, night.recorded = some run ∧ run.allPassed = false ∧
          (∀ record ∈ run.scenarios, record.passed = false) ∧
          ∀ scenario ∈ night.batch, scenario.name ∈ run.scenarios.map Record.name := by
  refine ⟨?_, ?_, ?_, fun _ => recorded_ne_none_iff, fun _ _ => attests_of_recorded,
    fun _ => recorded_of_down⟩
  · rw [foldl_publish]
    exact foldl_republish_of_pos (by omega) _ _
  · rw [foldl_publish]
    exact foldl_republish_zero _ _
  · induction nights with
    | nil => rfl
    | cons night rest ih => rw [List.foldl_cons, publish_none, ih]

end A2aItk.Metrics
