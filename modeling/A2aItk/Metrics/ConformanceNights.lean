import A2aItk.Metrics.ConformanceHistory

/-!
# Conformance nights

Whatever the service answers on a night, either nothing is recorded, or one entry with the
verdict, the tests and the counters of the run over every binding that was asked for.
-/

namespace A2aItk.Metrics

open Python Acts
open ProcessActsResults (RunEntry Slice compileTest compileTests compileTransport buildRun
  countNames)

section Slices

/-- The counters of a slice, from what they count. -/
def countsOf (count : String → ℤ) : List (String × Value) :=
  countNames.map fun key => (key, .int (count key))

/-- A counter is found under its name. -/
theorem lookup_countsOf (count : String → ℤ) {key : String} (hkey : key ∈ countNames) :
    (countsOf count).lookup key = some (.int (count key)) := by
  simp only [countNames, List.mem_cons, List.not_mem_nil, or_false] at hkey
  obtain rfl | rfl | rfl | rfl | rfl | rfl := hkey
  all_goals rfl

namespace ServedReport

variable (s : ServedReport)

/-- How many tests of a run ended like this. -/
def outcomes (outcome : Outcome) : ℤ := s.run.results.countP fun r => r.result = outcome

/-- What a counter of the report counts. -/
def count (key : String) : ℤ :=
  if key = "total" then s.run.results.length
  else if key = "passed" then s.outcomes .pass
  else if key = "failed" then s.outcomes .fail
  else if key = "skipped" then s.outcomes .skip
  else if key = "errors" then s.outcomes .error
  else s.info.durationMs

/-- The results of a run are those of its suite, graded. -/
theorem graded : ∃ loaded, s.request.suite = .ok loaded ∧
    Harness.GradedRun s.request loaded s.run := by
  obtain ⟨σ, harness, w, t, hran⟩ := s.ran
  exact harness.gradedRun_of_run s.request w s.run t hran

/-- There is a result for each test of the suite, in order. -/
theorem ids : s.run.results.map TestResult.id = s.run.suite.tests.map LoadedTest.id := by
  obtain ⟨_, -, hgraded⟩ := s.graded
  exact hgraded.ids

/-- Every result belongs to a test of the suite. -/
theorem mem_ids (r : TestResult) (hr : r ∈ s.run.results) :
    r.id ∈ s.run.suite.tests.map LoadedTest.id := by
  rw [← s.ids]
  exact List.mem_map_of_mem hr

/-- A run that was served has results. -/
theorem results_ne_nil : s.run.results ≠ [] := by
  obtain ⟨_, -, hgraded⟩ := s.graded
  intro hnil
  apply hgraded.nonempty
  rw [← List.map_eq_nil_iff (f := LoadedTest.id), ← s.ids, hnil, List.map_nil]

end ServedReport

/-- The JSON of a failure, field by field; one that is unset is missing. -/
structure Explains (failure : FailureDetail) (json : Value) : Prop where
  message : json.getOr "message" .null = .ok (.str failure.message)
  stepId : json.getOr "step_id" .null = .ok (failure.stepId.elim .null .str)
  expected : json.getOr "expected" .null = .ok (failure.expected.getD .null)
  actual : json.getOr "actual" .null = .ok (failure.actual.getD .null)
  assertionPath : json.getOr "assertion_path" .null =
    .ok (failure.assertionPath.elim .null .scalar)

/-- A record is that of a result: which test it is of, how it ended and why it did not pass. -/
structure Records (r : TestResult) (record : Value) : Prop where
  id : record.getOr "id" .null = .ok (.str r.id)
  level : record.getOr "level" .null = .ok (.str r.level.value)
  result : record.getOr "result" .null = .ok (.str r.result.value)
  failed : ∀ failure, r.failure = some failure →
    ∃ json, record.getOr "failure" .null = .ok json ∧ Explains failure json
  clean : r.failure = none → record.getOr "failure" .null = .ok .null
  skipReason : record.getOr "skip_reason" .null =
    .ok ((r.skipReason.filter (· ≠ "")).elim .null .str)

/-- A slice is that of a report: its verdict, its counters, and a record of each result. -/
structure Sliced (s : ServedReport) (slice : Slice) : Prop where
  conformant : slice.conformant = isConformant s.run.results
  summary : slice.summary = countsOf s.count
  tests : ∃ placed : List TestResult,
    List.Forall₂ Records placed slice.tests ∧
    placed.length = s.run.results.length ∧
    ((s.run.results.map TestResult.id).Nodup → placed.Perm s.run.results)

variable {s : ServedReport} {report : Value} {slice : Slice}

/-- The record of a failure says what the failure does. -/
theorem explains_failureJson (failure : FailureDetail) :
    Explains failure (Report.failureJson failure) := by
  have hfield (key : String) := Value.getOr_given [("message", some (.str failure.message)),
    ("step_id", failure.stepId.map .str), ("expected", failure.expected),
    ("actual", failure.actual), ("assertion_path", failure.assertionPath.map .scalar)]
    key .null (by simp)
  refine ⟨hfield "message", ?_, hfield "expected", hfield "actual", ?_⟩
  · rw [Report.failureJson, hfield "step_id"]
    cases failure.stepId <;> rfl
  · rw [Report.failureJson, hfield "assertion_path"]
    cases failure.assertionPath <;> rfl

/-- The record of a result, as it is written. -/
theorem compileTest_testResult (r : TestResult) :
    compileTest (Report.testResult r) = .ok (.given [("id", some (.str r.id)),
      ("level", some (.str r.level.value)), ("result", some (.str r.result.value)),
      ("failure", r.failure.map Report.failureJson),
      ("skip_reason", (r.skipReason.filter (· ≠ "")).map .str)]) := by
  have hfield (key : String) (fallback : Value) := Value.getOr_given [
    ("id", some (.str r.id)), ("name", some (.str r.name)),
    ("level", some (.str r.level.value)), ("result", some (.str r.result.value)),
    ("duration_ms", some (.int r.durationMs)),
    ("skip_reason", (r.skipReason.filter (· ≠ "")).map .str),
    ("configuration", (r.configuration.filter (· ≠ "")).map .str),
    ("failure", r.failure.map Report.failureJson),
    ("steps", if r.steps.isEmpty then none else some (.list (r.steps.map Report.stepJson)))]
    key fallback (by simp)
  have hid : (Report.testResult r).item "id" = .ok (.str r.id) := Value.item_object rfl
  have hlevel : (Report.testResult r).getOr "level" (.str "must") = .ok (.str r.level.value) :=
    hfield "level" _
  have hresult : (Report.testResult r).getOr "result" (.str "error") =
      .ok (.str r.result.value) := hfield "result" _
  have hfailure : (Report.testResult r).getOr "failure" .null =
      .ok ((r.failure.map Report.failureJson).getD .null) := hfield "failure" _
  have hskip : (Report.testResult r).getOr "skip_reason" .null =
      .ok (((r.skipReason.filter (· ≠ "")).map .str).getD .null) := hfield "skip_reason" _
  rw [compileTest, hid, ok_bind, hlevel, ok_bind, hresult, ok_bind, hfailure, ok_bind, hskip,
    ok_bind]
  -- a failure is an object with a message, and a reason that is given is not empty
  cases hreason : r.skipReason.filter (· ≠ "") with
  | none => cases r.failure <;> rfl
  | some reason =>
      have hne : reason ≠ "" := by simpa using (Option.filter_eq_some_iff.mp hreason).2
      have htruthy : (Value.str reason).truthy = true := by
        simp [Value.truthy, Scalar.truthy, hne]
      simp only [Option.map_some, Option.getD_some, htruthy]
      cases r.failure <;> rfl

/-- A record that is compiled from a reported result is one of it. -/
theorem records_of_compileTest {r : TestResult} {record : Value}
    (h : compileTest (Report.testResult r) = .ok record) : Records r record := by
  rw [compileTest_testResult] at h
  obtain rfl := Except.ok.inj h
  have hfield (key : String) := Value.getOr_given [("id", some (.str r.id)),
    ("level", some (.str r.level.value)), ("result", some (.str r.result.value)),
    ("failure", r.failure.map Report.failureJson),
    ("skip_reason", (r.skipReason.filter (· ≠ "")).map .str)] key .null (by simp)
  refine ⟨hfield "id", hfield "level", hfield "result", fun failure hfailure => ?_,
    fun hnone => ?_, ?_⟩
  · refine ⟨Report.failureJson failure, ?_, explains_failureJson failure⟩
    rw [hfield "failure", hfailure]
    rfl
  · rw [hfield "failure", hnone]
    rfl
  · rw [hfield "skip_reason"]
    cases r.skipReason.filter (· ≠ "") <;> rfl

theorem compileTransport_eq_ok (h : compileTransport report = .ok slice) :
    ∃ summary, ProcessActsResults.partOf report "summary" = .ok summary ∧
      countNames.mapM (fun k => do
        let v ← summary.getOr k (.int 0)
        pure (k, v) : String → Except PyError (String × Value)) = .ok slice.summary ∧
      compileTests report = .ok slice.tests := by
  obtain ⟨summary, hsummary, h⟩ := bind_eq_ok_iff.mp h
  obtain ⟨conformant, -, h⟩ := bind_eq_ok_iff.mp h
  obtain ⟨counts, hcounts, h⟩ := bind_eq_ok_iff.mp h
  obtain ⟨byLevel, -, h⟩ := bind_eq_ok_iff.mp h
  obtain ⟨tests, htests, h⟩ := bind_eq_ok_iff.mp h
  obtain rfl := Except.ok.inj h
  exact ⟨summary, hsummary, hcounts, htests⟩

/-- The results under the tests of the suite: as many as there are tests. -/
theorem length_placed (s : ServedReport) :
    (s.run.suite.tests.filterMap fun loaded =>
      (Dict.ofList (s.run.results.map fun r => (r.id, r))).get? loaded.id).length =
        s.run.results.length := by
  have hall : ∀ loaded ∈ s.run.suite.tests,
      ((Dict.ofList (s.run.results.map fun r => (r.id, r))).get? loaded.id).isSome = true := by
    intro loaded hloaded
    apply Dict.isSome_get?_update.mpr
    right
    rw [List.map_map]
    change loaded.id ∈ s.run.results.map TestResult.id
    rw [s.ids]
    exact List.mem_map_of_mem hloaded
  rw [List.length_filterMap_eq_countP, List.countP_eq_length.mpr hall,
    ← List.length_map (f := LoadedTest.id), ← s.ids, List.length_map]

/-- The tests of a served report, read back. -/
theorem reportTests_served (s : ServedReport) :
    ∃ tests, ProcessActsResults.reportTests s.report = .ok tests ∧
      tests.Perm ((s.run.suite.tests.filterMap fun loaded =>
        (Dict.ofList (s.run.results.map fun r => (r.id, r))).get? loaded.id).map
          Report.testResult) := by
  have hplaced := Report.placed_foldl (Dict.ofList (s.run.results.map fun r => (r.id, r)))
    s.run.suite.tests
  refine ⟨_, ProcessActsResults.reportTests_eq s.built (Report.suites_eq s.mem_ids), ?_⟩
  have hperm := hplaced.perm.map Prod.snd
  rw [List.map_filterMap] at hperm
  rw [List.map_filterMap]
  simpa [Option.map_map, Function.comp_def] using hperm

/-- What is compiled from a report is a slice of its run. -/
theorem sliced_of_compileTransport (h : compileTransport s.report = .ok slice) :
    Sliced s slice := by
  obtain ⟨summary, hsummary, hcounts, htests⟩ := compileTransport_eq_ok h
  refine ⟨?_, ?_, ?_⟩
  · obtain ⟨slice', hslice', hconformant⟩ :=
      ProcessActsResults.compileTransport_build s.mem_ids s.built
    cases h.symm.trans hslice'
    exact hconformant
  · obtain ⟨fields, hfields, hlookup, -⟩ := Report.build_fields s.built
    rw [hfields, ProcessActsResults.partOf_object hlookup (by simp)] at hsummary
    cases hsummary
    simp only [Value.getOr_object, ok_bind, pure_eq_ok] at hcounts
    exact (Except.ok.inj hcounts).symm
  · obtain ⟨tests, hread, hperm⟩ := reportTests_served s
    rw [compileTests, hread, ok_bind, mapM_eq_ok_iff] at htests
    have hmatched : List.Forall₂ (fun test r => test = Report.testResult r)
        ((s.run.suite.tests.filterMap fun loaded =>
          (Dict.ofList (s.run.results.map fun r => (r.id, r))).get? loaded.id).map
            Report.testResult) _ := List.forall₂_map_left_iff.mpr (List.forall₂_same.mpr
              fun r _ => rfl)
    obtain ⟨placed, hplaced, hsame⟩ := List.perm_comp_forall₂ hperm hmatched
    refine ⟨placed, ?_, ?_, fun hids => ?_⟩
    · have hread' : tests = placed.map Report.testResult := by
        rw [← List.forall₂_eq_eq_eq, List.forall₂_map_right_iff]
        exact hplaced
      subst hread'
      exact (List.forall₂_map_left_iff.mp htests).imp fun _ _ h => records_of_compileTest h
    · rw [hsame.length_eq, length_placed]
    · exact hsame.trans (Report.perm_loaded hids (s.ids ▸ hids) s.mem_ids)

end Slices

section Entries

variable {served : List ServedReport}

theorem exists_sliced (s : ServedReport) :
    ∃ entry : String × Slice, (do
        let transport ← ProcessActsResults.transportOf s.report
        let slice ← compileTransport s.report
        pure (transport, slice) : Except PyError (String × Slice)) = .ok entry ∧
      entry.1 = s.run.transport.value ∧ Sliced s entry.2 := by
  obtain ⟨slice, hslice, -⟩ := ProcessActsResults.compileTransport_build s.mem_ids s.built
  have htransport : ProcessActsResults.transportOf s.report = .ok s.run.transport.value := by
    obtain ⟨fields, hfields, -, -, hfield⟩ := Report.build_fields s.built
    rw [hfields, ProcessActsResults.transportOf, Value.getOr_object, hfield]
    rfl
  refine ⟨(s.run.transport.value, slice), ?_, rfl, sliced_of_compileTransport hslice⟩
  rw [htransport, hslice]
  rfl

/-- One slice a report. -/
theorem exists_slices (served : List ServedReport) :
    ∃ slices : List (String × Slice), (served.map ServedReport.report).mapM (fun report => do
        let transport ← ProcessActsResults.transportOf report
        let slice ← compileTransport report
        pure (transport, slice) : Value → Except PyError (String × Slice)) = .ok slices ∧
      List.Forall₂ (fun s entry => entry.1 = s.run.transport.value ∧ Sliced s entry.2) served
        slices := by
  have hall := exists_forall₂ fun s (_ : s ∈ served) => exists_sliced s
  obtain ⟨slices, hslices⟩ := hall
  refine ⟨slices, ?_, hslices.imp fun _ _ h => h.2⟩
  rw [mapM_eq_ok_iff, List.forall₂_map_left_iff]
  exact hslices.imp fun _ _ h => h.1

/-- Adding up the counters of the slices adds up those of the runs. -/
theorem addCounts_countsOf {s : ServedReport} {slice : Slice} (h : Sliced s slice)
    (count : String → ℤ) :
    addCounts (countsOf count) slice = .ok (countsOf fun key => count key + s.count key) := by
  unfold addCounts countsOf
  rw [List.mapM_map]
  apply mapM_eq_ok_of_forall
  intro key hkey
  rw [Function.comp_apply, h.summary, lookup_countsOf _ hkey]
  rfl

/-- The sums over the bindings. -/
theorem foldlM_addCounts {slices : List Slice} (h : List.Forall₂ Sliced served slices)
    (count : String → ℤ) :
    slices.foldlM addCounts (countsOf count) =
      .ok (countsOf fun key => count key + (served.map fun s => s.count key).sum) := by
  induction h generalizing count with
  | nil => simp
  | cons hslice _ ih =>
      rw [List.foldlM_cons, addCounts_countsOf hslice, ok_bind, ih]
      simp only [List.map_cons, List.sum_cons, add_assoc]

/-- Bindings are told apart by how they are spelled. -/
theorem value_injective : Function.Injective TransportBinding.value := by
  intro a b h
  cases a <;> cases b <;> first | rfl | exact absurd h (by decide)

/-- An entry of the history is that of the runs behind the reports of a night. -/
structure Summarizes (served : List ServedReport) (run : ActsHistoryRun) : Prop where
  graded : ∀ s ∈ served, ∃ loaded, s.request.suite = .ok loaded ∧
    Harness.GradedRun s.request loaded s.run
  transports : run.entry.transports =
    (served.map fun s => s.run.transport.value).insertionSort (· ≤ ·)
  conformant : run.entry.conformant = true ↔ ∀ s ∈ served, ∀ r ∈ s.run.results,
    r.level = .must → r.result = .pass ∨ r.result = .skip
  slices : ∀ s ∈ served, ∃ slice,
    run.entry.results.get? s.run.transport.value = some slice ∧ Sliced s slice
  /-- The counters are the sums over the bindings. -/
  summary : run.summary = countsOf fun key => (served.map fun s => s.count key).sum

theorem historyEntry_eq_ok {stamp : Stamp} {reports : List Value} {run : ActsHistoryRun}
    (h : historyEntry stamp reports = .ok run) :
    buildRun reports = .ok run.entry ∧ totalsOf run.entry.results = .ok run.summary := by
  cases reports with
  | nil => cases h
  | cons first rest =>
      obtain ⟨entry, hentry, h⟩ := bind_eq_ok_iff.mp h
      obtain ⟨summary, hsummary, h⟩ := bind_eq_ok_iff.mp h
      obtain ⟨sdk, -, h⟩ := bind_eq_ok_iff.mp h
      obtain ⟨name, -, h⟩ := bind_eq_ok_iff.mp h
      obtain ⟨version, -, h⟩ := bind_eq_ok_iff.mp h
      obtain ⟨acts, -, h⟩ := bind_eq_ok_iff.mp h
      obtain ⟨spec, -, h⟩ := bind_eq_ok_iff.mp h
      obtain rfl := Except.ok.inj h
      exact ⟨hentry, hsummary⟩

/-- The slices are all conformant if the runs are. -/
theorem all_conformant {slices : List Slice} (h : List.Forall₂ Sliced served slices) :
    slices.all Slice.conformant = served.all fun s => isConformant s.run.results := by
  induction h with
  | nil => rfl
  | cons hslice _ ih => rw [List.all_cons, List.all_cons, hslice.conformant, ih]

/-- The entry of reports over distinct bindings: a slice for each, under its binding. -/
theorem buildRun_served (hne : served ≠ [])
    (hdistinct : (served.map fun s => s.run.transport).Nodup) :
    ∃ entry, buildRun (served.map ServedReport.report) = .ok entry ∧
      entry.transports = (served.map fun s => s.run.transport.value).insertionSort (· ≤ ·) ∧
      entry.conformant = (served.all fun s => isConformant s.run.results) ∧
      List.Forall₂ Sliced served entry.results.values ∧
      ∀ s ∈ served, ∃ slice, entry.results.get? s.run.transport.value = some slice ∧
        Sliced s slice := by
  obtain ⟨slices, hslices, hsliced⟩ := exists_slices served
  have hkeys : slices.map Prod.fst = served.map fun s => s.run.transport.value := by
    rw [← List.forall₂_eq_eq_eq, List.forall₂_map_left_iff, List.forall₂_map_right_iff]
    exact hsliced.flip.imp fun _ _ h => h.1
  have hnodup : (slices.map Prod.fst).Nodup := by
    rw [hkeys, show (served.map fun s => s.run.transport.value) =
      (served.map fun s => s.run.transport).map TransportBinding.value from by simp]
    exact hdistinct.map value_injective
  have hentries := Dict.entries_ofList_of_nodup hnodup
  have hvalues : List.Forall₂ Sliced served (Dict.ofList slices).values := by
    rw [Dict.values, hentries, List.forall₂_map_right_iff]
    exact hsliced.imp fun _ _ h => h.2
  have hreports : (served.map ServedReport.report).isEmpty = false := by simpa using hne
  refine ⟨⟨(Dict.ofList slices).keys.insertionSort (· ≤ ·),
    (Dict.ofList slices).values.all Slice.conformant, Dict.ofList slices⟩, ?_, ?_, ?_, hvalues, ?_⟩
  · rw [buildRun, hslices, hreports]
    rfl
  · rw [Dict.keys, hentries, hkeys]
  · exact all_conformant hvalues
  · intro s hs
    obtain ⟨entry, hentry, hvalue, hslice⟩ := exists_left_of_mem hsliced.flip hs
    refine ⟨entry.2, Dict.get?_eq_some_iff.mpr ?_, hslice⟩
    change (_, _) ∈ (Dict.ofList slices).entries
    rw [hentries, ← hvalue]
    exact hentry

/-- The entry that is built from the reports summarizes their runs. -/
theorem summarizes_of_historyEntry {stamp : Stamp} {run : ActsHistoryRun} (hne : served ≠ [])
    (hdistinct : (served.map fun s => s.run.transport).Nodup)
    (h : historyEntry stamp (served.map ServedReport.report) = .ok run) :
    Summarizes served run := by
  obtain ⟨hentry, hsummary⟩ := historyEntry_eq_ok h
  obtain ⟨entry, hbuilt, htransports, hconformant, hvalues, hslices⟩ :=
    buildRun_served hne hdistinct
  cases hentry.symm.trans hbuilt
  refine ⟨fun s _ => s.graded, htransports, ?_, hslices, ?_⟩
  · rw [hconformant, List.all_eq_true]
    simp only [isConformant_iff]
  · have htotals := foldlM_addCounts hvalues fun _ => 0
    simp only [zero_add] at htotals
    exact Except.ok.inj (hsummary.symm.trans htotals)

theorem partOf_sdk {results : List TestResult} {suite : LoadedSuite} {info : Report.Info}
    {report : Value} (h : Report.build results suite info = .ok report) :
    ProcessActsResults.partOf report "sdk" = .ok (Report.textFields info.sdk) := by
  have hfield : ∃ fields, report = .object fields ∧
      fields.lookup "sdk" = some (Report.textFields info.sdk) := by
    unfold Report.build at h
    dsimp only at h
    split at h
    · cases h
    · obtain rfl := Except.ok.inj h
      exact ⟨_, rfl, rfl⟩
  obtain ⟨fields, rfl, hlookup⟩ := hfield
  rw [ProcessActsResults.partOf, Value.getOr_object, hlookup, ok_bind, Option.getD_some,
    ProcessActsResults.orElse, pure_eq_ok]
  split
  · rfl
  · rename_i hempty
    have hnil : info.sdk.entries = [] := by
      simpa [Report.textFields, Value.object, Value.truthy] using hempty
    rw [Report.textFields, hnil]
    rfl

/-- A report gives its SDK and its versions. -/
theorem exists_historyEntry (stamp : Stamp) (hne : served ≠ [])
    (hdistinct : (served.map fun s => s.run.transport).Nodup) :
    ∃ run, historyEntry stamp (served.map ServedReport.report) = .ok run := by
  obtain ⟨entry, hentry, -, -, hvalues, -⟩ := buildRun_served hne hdistinct
  have htotals := foldlM_addCounts hvalues fun _ => 0
  obtain ⟨first, rest, rfl⟩ := List.exists_cons_of_ne_nil hne
  obtain ⟨fields, hfields, -⟩ := Report.build_fields first.built
  have hsdk := partOf_sdk first.built
  rw [List.map_cons, historyEntry, ← List.map_cons, hentry, ok_bind]
  change ∃ run, ((entry.results.values.foldlM addCounts (countsOf fun _ => 0)) >>= _) = .ok run
  rw [htotals, ok_bind, hsdk, hfields, Report.textFields]
  simp only [Value.getOr_object, ok_bind]
  exact ⟨_, rfl⟩

end Entries

section Files

theorem mapM_id_eq_some_iff {α : Type*} {files : List (Option α)} {l : List α} :
    files.mapM id = some l ↔ files = l.map some := by
  induction files generalizing l with
  | nil =>
      cases l with
      | nil => simp
      | cons a rest => simp
  | cons file rest ih =>
      cases file with
      | none =>
          rw [List.mapM_cons]
          cases l <;> simp
      | some a =>
          rw [List.mapM_cons]
          cases hrest : rest.mapM id with
          | none =>
              have hnot (l : List α) : rest ≠ l.map some := by
                intro heq
                rw [ih.mpr heq] at hrest
                cases hrest
              cases l with
              | nil => simp
              | cons b l => simp [hnot]
          | some l' =>
              obtain rfl := ih.mp hrest
              cases l with
              | nil => simp
              | cons b l => simp [(List.map_injective_iff.mpr (Option.some_injective α)).eq_iff]

variable {served : List ServedReport}

/-- A report names the binding of its run. -/
theorem transport_of_served (s : ServedReport) :
    s.report.getOr "transport" .null = .ok (.str s.run.transport.value) := by
  obtain ⟨fields, hfields, -, -, hfield⟩ := Report.build_fields s.built
  rw [hfields, Value.getOr_object, hfield]
  rfl

/-- The tests of a report are compiled, and there are some. -/
theorem compileTests_served (s : ServedReport) :
    ∃ records, compileTests s.report = .ok records ∧ records ≠ [] := by
  obtain ⟨slice, hslice, -⟩ := ProcessActsResults.compileTransport_build s.mem_ids s.built
  obtain ⟨-, -, -, hrecords⟩ := compileTransport_eq_ok hslice
  obtain ⟨placed, hplaced, hlength, -⟩ := (sliced_of_compileTransport hslice).tests
  refine ⟨slice.tests, hrecords, fun hnil => s.results_ne_nil ?_⟩
  rw [hnil, List.forall₂_nil_right_iff] at hplaced
  rw [hplaced] at hlength
  exact List.length_eq_zero_iff.mp hlength.symm

/-- An envelope has no tests, and is refused as such. -/
theorem compileTests_envelope (detail : String) :
    compileTests (.object [("detail", .str detail)]) = .ok [] := rfl

theorem allDistinct_str {l : List String} : allDistinct (l.map Value.str) = true ↔ l.Nodup := by
  rw [allDistinct, decide_eq_true_eq, List.pairwise_map]
  apply List.Pairwise.iff
  intro a b
  rw [Value.eq, Bool.eq_false_iff]
  simp [Scalar.eq, Scalar.number?]

/-- What passes the checks on the files. -/
theorem loadReports_eq_some {files : List (Option Value)} {reports : List Value} :
    loadReports files = some reports ↔ files = reports.map some ∧ reports ≠ [] ∧
      (∃ records, reports.mapM compileTests = .ok records ∧ ∀ l ∈ records, l ≠ []) ∧
      ∃ seen, (reports.mapM fun report : Value => report.getOr "transport" .null) = .ok seen ∧
        allDistinct seen = true := by
  have hnonempty (records : List (List Value)) :
      (!records.any List.isEmpty) = true ↔ ∀ l ∈ records, l ≠ [] := by simp
  rw [← mapM_id_eq_some_iff]
  constructor
  · intro h
    obtain ⟨loaded, hloaded, h⟩ := Option.bind_eq_some_iff.mp h
    obtain ⟨records, hrecords, h⟩ := Option.bind_eq_some_iff.mp h
    obtain ⟨seen, hseen, h⟩ := Option.bind_eq_some_iff.mp h
    obtain rfl := Option.some.inj h
    obtain ⟨hloaded, hne⟩ := Option.filter_eq_some_iff.mp hloaded
    obtain ⟨hrecords, hall⟩ := Option.filter_eq_some_iff.mp hrecords
    obtain ⟨hseen, hdistinct⟩ := Option.filter_eq_some_iff.mp hseen
    exact ⟨hloaded, by simpa using hne,
      ⟨records, toOption_eq_some_iff.mp hrecords, (hnonempty records).mp hall⟩,
      seen, toOption_eq_some_iff.mp hseen, hdistinct⟩
  · rintro ⟨hloaded, hne, ⟨records, hrecords, hall⟩, seen, hseen, hdistinct⟩
    refine Option.bind_eq_some_iff.mpr ⟨reports, ?_, Option.bind_eq_some_iff.mpr ⟨records, ?_,
      Option.bind_eq_some_iff.mpr ⟨seen, ?_, rfl⟩⟩⟩
    · exact Option.filter_eq_some_iff.mpr ⟨hloaded, by simpa using hne⟩
    · exact Option.filter_eq_some_iff.mpr
        ⟨toOption_eq_some_iff.mpr hrecords, (hnonempty records).mpr hall⟩
    · exact Option.filter_eq_some_iff.mpr ⟨toOption_eq_some_iff.mpr hseen, hdistinct⟩

theorem exists_served {answers : List ActsAnswer}
    (h : ∀ answer ∈ answers, ∃ s, answer = .report s) :
    ∃ served : List ServedReport, answers = served.map .report := by
  obtain ⟨served, hserved⟩ := exists_forall₂ h
  refine ⟨served, ?_⟩
  rw [← List.forall₂_eq_eq_eq, List.forall₂_map_right_iff]
  exact hserved

/-- Reports name the bindings of their runs, in order. -/
theorem transports_served (served : List ServedReport) :
    (served.map ServedReport.report).mapM (fun report : Value =>
      report.getOr "transport" .null) =
    .ok ((served.map fun s => s.run.transport.value).map Value.str) := by
  rw [List.mapM_map, List.map_map]
  apply mapM_eq_ok_of_forall
  exact fun s _ => transport_of_served s

theorem nodup_transportValues (served : List ServedReport) :
    (served.map fun s => s.run.transport.value).Nodup ↔
      (served.map fun s => s.run.transport).Nodup := by
  rw [show (served.map fun s => s.run.transport.value) =
    (served.map fun s => s.run.transport).map TransportBinding.value from by simp]
  exact List.nodup_map_iff value_injective

/-- Reports that were served have their tests. -/
theorem records_served (served : List ServedReport) :
    ∃ records, (served.map ServedReport.report).mapM compileTests = .ok records ∧
      ∀ l ∈ records, l ≠ [] := by
  obtain ⟨records, hrecords⟩ := exists_forall₂ fun s (_ : s ∈ served) => compileTests_served s
  refine ⟨records, ?_, fun l hl => ?_⟩
  · rw [mapM_eq_ok_iff, List.forall₂_map_left_iff]
    exact hrecords.imp fun _ _ h => h.1
  · obtain ⟨s, -, hs⟩ := exists_left_of_mem hrecords hl
    exact hs.2

/-- Files that have tests are reports: the envelope of an error has none. -/
theorem served_of_records {answers : List ActsAnswer} {reports : List Value}
    {records : List (List Value)}
    (hfiles : answers.map ActsAnswer.json = reports.map some)
    (hrecords : reports.mapM compileTests = .ok records) (hnonempty : ∀ l ∈ records, l ≠ []) :
    ∃ served : List ServedReport, answers = served.map .report := by
  apply exists_served
  intro answer hanswer
  have hjson : answer.json ∈ reports.map some := hfiles ▸ List.mem_map_of_mem hanswer
  obtain ⟨report, hreport, hsome⟩ := List.mem_map.mp hjson
  cases answer with
  | unreadable => cases hsome
  | report s => exact ⟨s, rfl⟩
  | envelope detail =>
      cases hsome
      obtain ⟨l, hl, hrecord⟩ := exists_left_of_mem (mapM_eq_ok_iff.mp hrecords).flip hreport
      cases hrecord.symm.trans (compileTests_envelope detail)
      exact absurd rfl (hnonempty _ hl)

/-- What is read of a night: every answer is a report, and no two are over one binding. -/
theorem loadReports_answers {answers : List ActsAnswer} {reports : List Value} :
    loadReports (answers.map ActsAnswer.json) = some reports ↔
      ∃ served : List ServedReport, answers = served.map .report ∧ served ≠ [] ∧
        (served.map fun s => s.run.transport).Nodup ∧
        reports = served.map ServedReport.report := by
  rw [loadReports_eq_some]
  constructor
  · rintro ⟨hfiles, hne, ⟨records, hrecords, hnonempty⟩, seen, hdistinct, hall⟩
    obtain ⟨served, rfl⟩ := served_of_records hfiles hrecords hnonempty
    have hreports : reports = served.map ServedReport.report := by
      apply List.map_injective_iff.mpr (Option.some_injective Value)
      rw [← hfiles, List.map_map, List.map_map]
      rfl
    subst hreports
    rw [transports_served] at hdistinct
    cases hdistinct
    refine ⟨served, rfl, by simpa using hne, ?_, rfl⟩
    rw [← nodup_transportValues]
    exact allDistinct_str.mp hall
  · rintro ⟨served, rfl, hne, hnodup, rfl⟩
    refine ⟨?_, by simpa using hne, records_served served, _, transports_served served, ?_⟩
    · rw [List.map_map, List.map_map]
      rfl
    · exact allDistinct_str.mpr ((nodup_transportValues served).mpr hnodup)

theorem validReport_object {fields : List (String × Value)} (summary : List (String × Value))
    {n : ℤ}
    (hsummary : fields.lookup "summary" = some (.object summary))
    (hothers : ∀ key ∈ ["suites", "sdk", "transport"], (fields.lookup key).isSome = true)
    (hlevels : (summary.lookup "by_level").isSome = true)
    (htotal : summary.lookup "total" = some (.int n)) (hn : n ≠ 0) :
    validReport (.object fields) = true := by
  simp only [List.forall_mem_cons, List.not_mem_nil, false_imp_iff, implies_true,
    and_true] at hothers
  simp only [validReport, Value.object] at hsummary ⊢
  simp [Value.lookup_object, hsummary, hothers, hlevels, htotal, Value.truthy, Scalar.truthy, hn]

/-- A report that was served is valid. -/
theorem reported_served (s : ServedReport) : reported (some s.report) = true := by
  have hlength : (s.run.results.length : ℤ) ≠ 0 := by
    simpa [List.length_eq_zero_iff] using s.results_ne_nil
  have hbuilt := s.built
  unfold toReport Report.build at hbuilt
  dsimp only at hbuilt
  split at hbuilt
  · cases hbuilt
  · rw [← Except.ok.inj hbuilt]
    rw [reported, Option.map_some, Option.getD_some]
    refine validReport_object (Report.counters s.run.results ++
      [("duration_ms", .int s.info.durationMs), ("by_level", .object (Level.all.map fun level =>
        (level.value, Report.levelSummary s.run.results level)))]) rfl ?_ rfl rfl hlength
    intro key hkey
    simp only [List.mem_cons, List.not_mem_nil, or_false] at hkey
    obtain rfl | rfl | rfl := hkey
    all_goals rfl

end Files

section Windows

variable (night : ActsNight) (published : Option (List ActsHistoryRun))

/-- What is written: a limit that is no number stops every night. -/
theorem process_eq (limit : Option ℤ) :
    night.process limit published =
      if night.fetches && night.written then
        night.entry.bind fun run => limit.map fun n => pruned n (published.getD [] ++ [run])
      else none := by
  unfold ActsNight.process ActsNight.entry processActsResults
  cases loadReports (night.answers.map ActsAnswer.json) with
  | none => cases night.fetches <;> cases night.written <;> rfl
  | some reports =>
      cases night.fetches with
      | false => rfl
      | true =>
          simp only [Option.bind_eq_bind, Option.bind_some, reduceIte]
          cases (historyEntry night.stamp reports).toOption with
          | none => cases night.written <;> rfl
          | some run => cases limit <;> cases night.written <;> rfl

/-- A night publishes again what was there, and its own entry. -/
theorem publish_acts_eq (limit : ℤ) :
    night.publish (some limit) published = republish limit published night.recorded := by
  unfold ActsNight.publish ActsNight.recorded
  rw [process_eq]
  cases night.uploaded with
  | false => rw [Bool.and_false]; rfl
  | true =>
      rw [Bool.and_true]
      cases night.fetches && night.written with
      | false => rfl
      | true => cases night.entry <;> rfl

/-- So do nights in a row, by induction on them. -/
theorem foldl_publish_acts (limit : ℤ) (nights : List ActsNight) :
    nights.foldl (fun published night => night.publish (some limit) published) published =
      (nights.map ActsNight.recorded).foldl (republish limit) published := by
  rw [List.foldl_map]
  congr 1
  ext1 published
  ext1 night
  exact publish_acts_eq night published limit

/-- Every binding of a night has a report, and no binding has two. -/
structure ActsNight.Complete (served : List ServedReport) : Prop where
  answers : night.answers = served.map .report
  nonempty : served ≠ []
  distinct : (served.map fun s => s.run.transport).Nodup

variable {night}

/-- A night has an entry if it is complete. -/
theorem entry_eq_some_iff {run : ActsHistoryRun} :
    night.entry = some run ↔ ∃ served, night.Complete served ∧
      historyEntry night.stamp (served.map ServedReport.report) = .ok run := by
  rw [ActsNight.entry, Option.bind_eq_some_iff]
  constructor
  · rintro ⟨reports, hreports, hrun⟩
    obtain ⟨served, hanswers, hne, hdistinct, rfl⟩ := loadReports_answers.mp hreports
    exact ⟨served, ⟨hanswers, hne, hdistinct⟩, toOption_eq_some_iff.mp hrun⟩
  · rintro ⟨served, ⟨hanswers, hne, hdistinct⟩, hrun⟩
    exact ⟨_, loadReports_answers.mpr ⟨served, hanswers, hne, hdistinct, rfl⟩,
      toOption_eq_some_iff.mpr hrun⟩

/-- And only then. -/
theorem entry_ne_none_iff : night.entry ≠ none ↔ ∃ served, night.Complete served := by
  rw [Option.ne_none_iff_exists']
  constructor
  · rintro ⟨run, hrun⟩
    obtain ⟨served, hcomplete, -⟩ := entry_eq_some_iff.mp hrun
    exact ⟨served, hcomplete⟩
  · rintro ⟨served, hcomplete⟩
    obtain ⟨run, hrun⟩ := exists_historyEntry night.stamp hcomplete.nonempty hcomplete.distinct
    exact ⟨run, entry_eq_some_iff.mpr ⟨served, hcomplete, hrun⟩⟩

/-- The driver is green just when it has written the file. -/
theorem succeeds_iff {limit : Option ℤ} :
    night.succeeds limit published = true ↔ (night.process limit published).isSome = true := by
  rw [ActsNight.succeeds, Bool.and_eq_true, and_iff_right_iff_imp, process_eq]
  intro hwritten
  split at hwritten
  · obtain ⟨history, hhistory⟩ := Option.isSome_iff_exists.mp hwritten
    obtain ⟨run, hrun, -⟩ := Option.bind_eq_some_iff.mp hhistory
    obtain ⟨served, hcomplete, -⟩ := entry_eq_some_iff.mp hrun
    rw [hcomplete.answers, List.map_map, List.all_map, List.all_eq_true]
    exact fun s _ => reported_served s
  · cases hwritten

/-- A request is answered with a report just when its run returns; the report is of it. -/
theorem runActs_eq_report_iff {σ : Type} {harness : Harness σ} {text : Exception → String}
    {request : RunRequest} {info : ReportInfo} {w t : World σ} {s : ServedReport} :
    runActs harness text request info w = (.report s, t) ↔
      s.request = request ∧ s.info = info ∧ harness.run request w = .ok s.run t := by
  unfold runActs
  constructor
  · intro h
    split at h
    · cases h
    · rename_i hran
      split at h
      · cases h
      · cases h
        exact ⟨rfl, rfl, hran⟩
  · rintro ⟨rfl, rfl, hran⟩
    split
    · rename_i hfailed
      cases hran.symm.trans hfailed
    · rename_i hran'
      cases hran.symm.trans hran'
      split
      · rename_i hfailed
        cases s.built.symm.trans hfailed
      · rename_i hbuilt
        cases s.built.symm.trans hbuilt
        rfl

/-- The runs behind the reports that one service answered: each returned, in the world that the
one before it left. -/
inductive Answered {σ : Type} (harness : Harness σ) :
    List (RunRequest × ReportInfo) → World σ → List ServedReport → Prop
  | none (w : World σ) : Answered harness [] w []
  | next {rest : List (RunRequest × ReportInfo)} {w t : World σ} {s : ServedReport}
      {served : List ServedReport} (hran : harness.run s.request w = .ok s.run t)
      (hrest : Answered harness rest t served) :
      Answered harness ((s.request, s.info) :: rest) w (s :: served)

theorem runAllActs_eq_reports_iff {σ : Type} {harness : Harness σ} {text : Exception → String}
    {asked : List (RunRequest × ReportInfo)} {w : World σ} {served : List ServedReport} :
    runAllActs harness text asked w = served.map .report ↔ Answered harness asked w served := by
  induction asked generalizing w served with
  | nil =>
      cases served with
      | nil => exact iff_of_true rfl (.none w)
      | cons s served => exact iff_of_false (by simp [runAllActs]) (by rintro ⟨⟩)
  | cons ask rest ih =>
      obtain ⟨request, info⟩ := ask
      cases served with
      | nil => exact iff_of_false (by simp [runAllActs]) (by rintro ⟨⟩)
      | cons s served =>
          rw [runAllActs, List.map_cons, List.cons.injEq]
          constructor
          · rintro ⟨hanswer, hrest⟩
            obtain ⟨rfl, rfl, hran⟩ := runActs_eq_report_iff.mp (Prod.ext hanswer rfl)
            exact .next hran (ih.mp hrest)
          · intro h
            cases h with
            | next hran hrest =>
                have hanswer : runActs harness text s.request s.info w = (.report s, _) :=
                  runActs_eq_report_iff.mpr ⟨rfl, rfl, hran⟩
                rw [hanswer]
                exact ⟨rfl, ih.mpr hrest⟩

end Windows

/-- Over any conformance nights, the published history is the last entries of all that were
recorded, in order. A night is recorded just when every binding has its report; its entry then
has the verdicts, the tests and the counters of the runs behind them. One service answers with
reports just when each of its runs returns. The driver is green just when it has written the
file. -/
theorem conformance_nights_keep_window (n : ℕ) (published : Option (List ActsHistoryRun))
    (nights : List ActsNight) :
    (nights.foldl (fun published night => night.publish (some (n + 1)) published) published =
        if (nights.map ActsNight.recorded).reduceOption = [] then published
        else some ((published.getD [] ++
          (nights.map ActsNight.recorded).reduceOption).rtake (n + 1))) ∧
      (∀ night : ActsNight, night.recorded ≠ none ↔ night.fetches = true ∧
        night.written = true ∧ night.uploaded = true ∧ ∃ served, night.Complete served) ∧
      (∀ (night : ActsNight) run, night.recorded = some run →
        ∃ served, night.Complete served ∧ Summarizes served run) ∧
      (∀ (night : ActsNight) (σ : Type) (harness : Harness σ) text asked w,
        night.answers = runAllActs harness text asked w →
          ∀ served, night.Complete served ↔ Answered harness asked w served ∧ served ≠ [] ∧
            (served.map fun s => s.run.transport).Nodup) ∧
      ∀ (night : ActsNight) limit published, night.succeeds limit published = true ↔
        (night.process limit published).isSome = true := by
  refine ⟨?_, fun night => ?_, fun night run hrun => ?_, ?_, fun _ _ published =>
    succeeds_iff published⟩
  · rw [foldl_publish_acts]
    exact foldl_republish_of_pos (by omega) _ _
  · rw [← entry_ne_none_iff, ActsNight.recorded]
    cases night.fetches <;> cases night.written <;> cases night.uploaded <;> simp
  · rw [ActsNight.recorded] at hrun
    split at hrun
    · obtain ⟨served, hcomplete, hentry⟩ := entry_eq_some_iff.mp hrun
      exact ⟨served, hcomplete,
        summarizes_of_historyEntry hcomplete.nonempty hcomplete.distinct hentry⟩
    · cases hrun
  · intro night σ harness text asked w hanswers served
    have hserves : runAllActs harness text asked w = served.map .report ↔
        Answered harness asked w served := runAllActs_eq_reports_iff
    rw [← hserves, ← hanswers]
    constructor
    · exact fun h => ⟨h.answers, h.nonempty, h.distinct⟩
    · exact fun ⟨hserved, hne, hdistinct⟩ => ⟨hserved, hne, hdistinct⟩

end A2aItk.Metrics
