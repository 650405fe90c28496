import A2aItk.Acts.Report
import A2aItk.Acts.Reruns

/-!
# One verdict for every reader

The runner, the report and the two scripts that read it agree on conformance, the
totals of a report are the sums over its levels, and every result is under its suite
once.
-/

namespace A2aItk.Acts

open Python

section Counters

variable {results : List TestResult}

/-- The results of the three levels are all of them. -/
theorem countP_levels (p : TestResult → Bool) (results : List TestResult) :
    results.countP p = (results.filter fun r => r.level = .must).countP p +
      (results.filter fun r => r.level = .should).countP p +
      (results.filter fun r => r.level = .may).countP p := by
  induction results with
  | nil => rfl
  | cons r rest ih =>
      have hstep (level : Level) : ((r :: rest).filter fun r => r.level = level).countP p =
          (rest.filter fun r => r.level = level).countP p +
            if r.level = level ∧ p r = true then 1 else 0 := by
        by_cases hlevel : r.level = level
        · simp [hlevel, List.countP_cons]
        · simp [hlevel]
      rw [hstep, hstep, hstep, List.countP_cons, ih]
      cases r.level <;> simp only [reduceCtorEq, false_and, true_and, if_false] <;> omega

theorem length_levels (results : List TestResult) :
    results.length = (results.filter fun r => r.level = .must).length +
      (results.filter fun r => r.level = .should).length +
      (results.filter fun r => r.level = .may).length := by
  simpa using countP_levels (fun _ => true) results

/-- The runner's verdict in terms of the counters. -/
theorem isConformant_eq (results : List TestResult) :
    isConformant results =
      (decide (((results.filter fun r => r.level = .must).countP fun r => r.result = .fail) = 0) &&
        decide (((results.filter fun r => r.level = .must).countP fun r => r.result = .error) =
          0)) := by
  rw [Bool.eq_iff_iff]
  simp only [isConformant, Bool.not_eq_true', List.any_eq_false, Bool.and_eq_true,
    Bool.or_eq_true, decide_eq_true_eq, List.countP_eq_zero, List.mem_filter]
  constructor
  · intro h
    exact ⟨fun r hr hfail => h r hr.1 ⟨hr.2, .inl hfail⟩,
      fun r hr herror => h r hr.1 ⟨hr.2, .inr herror⟩⟩
  · rintro ⟨hfail, herror⟩ r hr ⟨hmust, hresult | hresult⟩
    · exact hfail r ⟨hr, hmust⟩ hresult
    · exact herror r ⟨hr, hmust⟩ hresult

end Counters

namespace Report

/-- A counter of the summary. -/
def total (report : Value) (key : String) : Except PyError Value := do
  (← report.item "summary").item key

/-- A counter of one level. -/
def levelTotal (report : Value) (level : Level) (key : String) : Except PyError Value := do
  (← (← (← report.item "summary").item "by_level").item level.value).item key

def counterNames : List String := ["total", "passed", "failed", "skipped", "errors"]

/-- The tests of a report, each with the id of the suite it is under. -/
def placements (report : Value) : Except PyError (List (Value × Value)) := do
  let suites ← (← report.item "suites").iterate
  let placed ← suites.mapM fun suite => do
    let id ← suite.item "id"
    let tests ← (← suite.item "tests").iterate
    pure (tests.map fun test => (id, test))
  pure placed.flatten

section Build

variable {results : List TestResult} {suite : LoadedSuite} {info : Info} {report : Value}

/-- What a report that is built holds where its readers look. -/
theorem build_fields (h : build results suite info = .ok report) :
    ∃ fields, report = .object fields ∧
      fields.lookup "summary" = some (summarize results info.durationMs) ∧
      fields.lookup "suites" = some (.list (suites results suite)) ∧
      fields.lookup "transport" = some (.str info.transport.value) := by
  unfold build at h
  dsimp only at h
  split at h
  · cases h
  · obtain rfl := Except.ok.inj h
    exact ⟨_, rfl, rfl, rfl, rfl⟩

theorem lookup_levels (results : List TestResult) (level : Level) :
    (Level.all.map fun level => (level.value, levelSummary results level)).lookup level.value =
      some (levelSummary results level) := by
  cases level <;> rfl

theorem total_of_counters (h : build results suite info = .ok report) {key : String} {n : Value}
    (hkey : (counters results).lookup key = some n) : total report key = .ok n := by
  obtain ⟨fields, rfl, hsummary, -⟩ := build_fields h
  rw [total, Value.item_object hsummary, ok_bind]
  apply Value.item_object
  rw [List.lookup_append, hkey]
  rfl

theorem levelTotal_of_counters (h : build results suite info = .ok report) {level : Level}
    {key : String} {n : Value}
    (hkey : (counters (results.filter fun r => r.level = level)).lookup key = some n) :
    levelTotal report level key = .ok n := by
  obtain ⟨fields, rfl, hsummary, -⟩ := build_fields h
  have hlevels : (summarize results info.durationMs).item "by_level" = .ok
      (.object (Level.all.map fun level => (level.value, levelSummary results level))) :=
    Value.item_object rfl
  rw [levelTotal, Value.item_object hsummary, ok_bind, hlevels, ok_bind,
    Value.item_object (lookup_levels results level), ok_bind]
  exact Value.item_object hkey

/-- The totals are the sums over the levels. -/
theorem totals_add_up (h : build results suite info = .ok report) {key : String}
    (hkey : key ∈ counterNames) :
    ∃ must should may : ℕ, levelTotal report .must key = .ok (.int must) ∧
      levelTotal report .should key = .ok (.int should) ∧
      levelTotal report .may key = .ok (.int may) ∧
      total report key = .ok (.int (must + should + may : ℕ)) := by
  have hcount (outcome : Outcome)
      (hfound : ∀ l : List TestResult, (counters l).lookup key =
        some (.int (l.countP fun r => r.result = outcome))) :
      ∃ must should may : ℕ, levelTotal report .must key = .ok (.int must) ∧
        levelTotal report .should key = .ok (.int should) ∧
        levelTotal report .may key = .ok (.int may) ∧
        total report key = .ok (.int (must + should + may : ℕ)) := by
    refine ⟨_, _, _, levelTotal_of_counters h (hfound _), levelTotal_of_counters h (hfound _),
      levelTotal_of_counters h (hfound _), ?_⟩
    rw [← countP_levels]
    exact total_of_counters h (hfound results)
  simp only [counterNames, List.mem_cons, List.not_mem_nil, or_false] at hkey
  obtain rfl | rfl | rfl | rfl | rfl := hkey
  · refine ⟨_, _, _, levelTotal_of_counters h rfl, levelTotal_of_counters h rfl,
      levelTotal_of_counters h rfl, ?_⟩
    rw [← length_levels]
    exact total_of_counters h rfl
  · exact hcount .pass fun _ => rfl
  · exact hcount .fail fun _ => rfl
  · exact hcount .skip fun _ => rfl
  · exact hcount .error fun _ => rfl

/-- The tests of a report's suites, each with the id its suite is kept under. -/
def entriesOf (grouped : Dict String SuiteEntry) : List (Value × Value) :=
  grouped.entries.flatMap fun field => field.2.tests.map fun test => (Value.str field.1, test)

/-- A loaded test adds its result under its suite. -/
theorem perm_placed {byId : Dict String TestResult} {grouped : Dict String SuiteEntry}
    {loaded : LoadedTest} {r : TestResult} (hr : byId.get? loaded.id = some r) :
    (entriesOf (placed byId grouped loaded)).Perm
      (entriesOf grouped ++ [(.str loaded.suiteId, testResult r)]) := by
  unfold placed entriesOf
  rw [hr]
  apply Dict.perm_flatMap_set
  · intro hnone
    simp [hnone]
  · intro entry hsome
    simp [hsome]

/-- Results are placed under the suites of their tests, each suite under its own id. -/
structure Placed (byId : Dict String TestResult) (done : List LoadedTest)
    (grouped : Dict String SuiteEntry) : Prop where
  named : ∀ k entry, (k, entry) ∈ grouped.entries → entry.id = k
  perm : (entriesOf grouped).Perm (done.filterMap fun loaded => (byId.get? loaded.id).map fun r =>
    (Value.str loaded.suiteId, testResult r))

theorem Placed.step {byId : Dict String TestResult} {done : List LoadedTest}
    {grouped : Dict String SuiteEntry} (h : Placed byId done grouped) (loaded : LoadedTest) :
    Placed byId (done ++ [loaded]) (placed byId grouped loaded) := by
  cases hr : byId.get? loaded.id with
  | none =>
      have hsame : placed byId grouped loaded = grouped := by rw [placed, hr]
      rw [hsame]
      exact ⟨h.named, by simpa [List.filterMap_append, hr] using h.perm⟩
  | some r =>
      constructor
      · intro k entry hentry
        rw [placed, hr] at hentry
        obtain hnew | hold := Dict.mem_entries_set hentry
        · obtain ⟨rfl, rfl⟩ := Prod.mk.inj hnew
          cases hfound : grouped.get? loaded.suiteId with
          | none => rfl
          | some entry => exact h.named _ entry (Dict.get?_eq_some_iff.mp hfound)
        · exact h.named k entry hold
      · rw [List.filterMap_append]
        exact (perm_placed hr).trans (by
          simpa [hr] using h.perm.append_right [(Value.str loaded.suiteId, testResult r)])

theorem placed_foldl (byId : Dict String TestResult) (tests : List LoadedTest) :
    Placed byId tests (tests.foldl (placed byId) Dict.empty) := by
  induction tests using List.reverseRecOn with
  | nil => exact ⟨fun _ _ h => absurd h (by simp [Dict.empty]), by simp [entriesOf, Dict.empty]⟩
  | append_singleton done loaded ih =>
      rw [List.foldl_append]
      exact ih.step loaded

theorem get?_byId (hids : (results.map fun r => r.id).Nodup) {id : String} {r : TestResult} :
    (Dict.ofList (results.map fun r => (r.id, r))).get? id = some r ↔ r ∈ results ∧ r.id = id := by
  have hkeys : ((results.map fun r => (r.id, r)).map Prod.fst).Nodup := by
    simpa [Function.comp_def] using hids
  rw [Dict.get?_eq_some_iff, Dict.entries_ofList_of_nodup hkeys, List.mem_map]
  constructor
  · rintro ⟨r', hr', heq⟩
    obtain ⟨rfl, rfl⟩ := Prod.mk.inj heq
    exact ⟨hr', rfl⟩
  · rintro ⟨hr, rfl⟩
    exact ⟨r, hr, rfl⟩

/-- The suite a test was loaded from. -/
def suiteOf (suite : LoadedSuite) (id : String) : Option String :=
  (suite.tests.find? fun loaded => loaded.id = id).map LoadedTest.suiteId

theorem suiteOf_of_mem (hsuite : (suite.tests.map LoadedTest.id).Nodup) {loaded : LoadedTest}
    (h : loaded ∈ suite.tests) : suiteOf suite loaded.id = some loaded.suiteId := by
  rw [suiteOf, Option.map_eq_some_iff]
  refine ⟨loaded, ?_, rfl⟩
  obtain ⟨found, hfound⟩ : ∃ found, suite.tests.find? (fun l => l.id = loaded.id) = some found := by
    apply Option.isSome_iff_exists.mp
    rw [List.find?_isSome]
    exact ⟨loaded, h, by simp⟩
  have heq : found.id = loaded.id := by simpa using List.find?_some hfound
  rw [hfound, List.inj_on_of_nodup_map hsuite (List.mem_of_find?_eq_some hfound) h heq]

/-- The results a suite is given are met once each on the way through its tests. -/
theorem perm_loaded (hids : (results.map fun r => r.id).Nodup)
    (hsuite : (suite.tests.map LoadedTest.id).Nodup)
    (hfrom : ∀ r ∈ results, r.id ∈ suite.tests.map LoadedTest.id) :
    (suite.tests.filterMap fun loaded =>
      (Dict.ofList (results.map fun r => (r.id, r))).get? loaded.id).Perm results := by
  apply (List.perm_ext_iff_of_nodup ?_ (List.Nodup.of_map _ hids)).mpr
  · intro r
    rw [List.mem_filterMap]
    constructor
    · rintro ⟨loaded, -, hr⟩
      exact ((get?_byId hids).mp hr).1
    · intro hr
      obtain ⟨loaded, hloaded, heq⟩ := List.mem_map.mp (hfrom r hr)
      exact ⟨loaded, hloaded, (get?_byId hids).mpr ⟨hr, heq.symm⟩⟩
  · apply List.pairwise_filterMap.mpr
    apply (List.pairwise_map.mp hsuite).imp
    rintro loaded loaded' hne r hr _ hr' rfl
    exact hne (((get?_byId hids).mp hr).2.symm.trans ((get?_byId hids).mp hr').2)

/-- Without results of other tests, the suites of a report are those of the corpus. -/
theorem suites_eq (hfrom : ∀ r ∈ results, r.id ∈ suite.tests.map LoadedTest.id) :
    suites results suite = (suite.tests.foldl
      (placed (Dict.ofList (results.map fun r => (r.id, r)))) Dict.empty).values.map
        SuiteEntry.json := by
  have horphans : (results.filter fun r => r.id ∉ suite.tests.map LoadedTest.id) = [] := by
    rw [List.filter_eq_nil_iff]
    intro r hr
    simpa using hfrom r hr
  unfold suites
  simp only [horphans, List.isEmpty_nil, if_true]

theorem placements_eq (h : build results suite info = .ok report)
    {grouped : Dict String SuiteEntry}
    (hnamed : ∀ k entry, (k, entry) ∈ grouped.entries → entry.id = k)
    (hsuites : suites results suite = grouped.values.map SuiteEntry.json) :
    placements report = .ok (entriesOf grouped) := by
  obtain ⟨fields, rfl, -, hfield, -⟩ := build_fields h
  rw [placements, Value.item_object hfield, ok_bind, hsuites]
  have hloop : (grouped.values.map SuiteEntry.json).mapM (fun suite => do
        let id ← suite.item "id"
        let tests ← (← suite.item "tests").iterate
        pure (tests.map fun test => (id, test)) : Value → Except PyError (List (Value × Value))) =
      .ok (grouped.entries.map fun field => field.2.tests.map fun test =>
        (Value.str field.1, test)) := by
    rw [Dict.values, List.map_map, List.mapM_map]
    apply mapM_eq_ok_of_forall
    rintro ⟨k, entry⟩ hentry
    have hid : (SuiteEntry.json entry).item "id" = .ok (.str entry.id) := Value.item_object rfl
    have htests : (SuiteEntry.json entry).item "tests" = .ok (.list entry.tests) :=
      Value.item_object rfl
    simp only [Function.comp_apply, hid, htests, ok_bind, Value.iterate, pure_eq_ok,
      hnamed k entry hentry]
  have hiterate : (Value.list (grouped.values.map SuiteEntry.json)).iterate =
      .ok (grouped.values.map SuiteEntry.json) := rfl
  rw [hiterate, ok_bind, hloop, ok_bind, entriesOf, List.flatMap_def]
  rfl

/-- Every result of a corpus is in its report once, under the suite of its test. -/
theorem placements_perm (hids : (results.map fun r => r.id).Nodup)
    (hsuite : (suite.tests.map LoadedTest.id).Nodup)
    (hfrom : ∀ r ∈ results, r.id ∈ suite.tests.map LoadedTest.id)
    (h : build results suite info = .ok report) :
    ∃ placed, placements report = .ok placed ∧ placed.Perm (results.map fun r =>
      (.str ((suiteOf suite r.id).getD ""), testResult r)) := by
  have hplaced := placed_foldl (Dict.ofList (results.map fun r => (r.id, r))) suite.tests
  refine ⟨_, placements_eq h hplaced.named (suites_eq hfrom), hplaced.perm.trans ?_⟩
  have hmap : (suite.tests.filterMap fun loaded =>
        ((Dict.ofList (results.map fun r => (r.id, r))).get? loaded.id).map fun r =>
          (Value.str loaded.suiteId, testResult r)) =
      (suite.tests.filterMap fun loaded =>
        (Dict.ofList (results.map fun r => (r.id, r))).get? loaded.id).map fun r =>
          (Value.str ((suiteOf suite r.id).getD ""), testResult r) := by
    rw [List.map_filterMap]
    apply List.filterMap_congr
    intro loaded hloaded
    apply Option.map_congr
    intro r hr
    rw [((get?_byId hids).mp hr).2, suiteOf_of_mem hsuite hloaded]
    rfl
  rw [hmap]
  exact (perm_loaded hids hsuite hfrom).map _

end Build

end Report

section Verdicts

variable {results : List TestResult} {suite : LoadedSuite} {info : Report.Info} {report : Value}

theorem int_eq_zero (n : ℕ) : Value.eq (.int n) (.int 0) = decide (n = 0) := by
  simp [Value.eq, Scalar.eq, Scalar.number?, PyFloat.eq]

theorem truthy_int (n : ℕ) : (Value.int n).truthy = !decide (n = 0) := by
  simp [Value.truthy, Scalar.truthy]

theorem truthy_object {fields : List (String × Value)} (h : fields ≠ []) :
    (Value.object fields).truthy = true := by
  simpa [Value.object, Value.truthy] using h

/-- Two counters that are read with a default decide a verdict by their being zero. -/
theorem verdict_of_counters (counted : List TestResult) :
    (do
      let failed ← (Value.object (Report.counters counted)).getOr "failed" .null
      if failed.truthy then pure false
      else
        let errors ← (Value.object (Report.counters counted)).getOr "errors" .null
        pure !errors.truthy : Except PyError Bool) =
      .ok (decide ((counted.countP fun r => r.result = .fail) = 0) &&
        decide ((counted.countP fun r => r.result = .error) = 0)) := by
  have hfailed : (Value.object (Report.counters counted)).getOr "failed" .null =
      .ok (.int (counted.countP fun r => r.result = .fail)) := Value.getOr_object _ _ _
  have herrors : (Value.object (Report.counters counted)).getOr "errors" .null =
      .ok (.int (counted.countP fun r => r.result = .error)) := Value.getOr_object _ _ _
  rw [hfailed, ok_bind, truthy_int]
  by_cases hzero : (counted.countP fun r => r.result = .fail) = 0
  · simp [hzero, herrors, truthy_int]
  · simp [hzero]

theorem Report.isConformant_build (h : Report.build results suite info = .ok report) :
    Report.isConformant report = .ok (Acts.isConformant results) := by
  obtain ⟨fields, rfl, hsummary, -⟩ := Report.build_fields h
  have hlevels : (Report.summarize results info.durationMs).item "by_level" = .ok
      (.object (Level.all.map fun level => (level.value, Report.levelSummary results level))) :=
    Value.item_object rfl
  have hcounter (counted : List TestResult) (outcome : Outcome) {key : String}
      (hkey : (Report.counters counted).lookup key = some (Report.count counted outcome)) :
      (Value.object (Report.counters counted)).item key =
        .ok (.int (counted.countP fun r => r.result = outcome)) := Value.item_object hkey
  rw [Report.isConformant, Value.item_object hsummary, ok_bind, hlevels, ok_bind,
    Value.item_object (Report.lookup_levels results .must), ok_bind, Report.levelSummary,
    hcounter _ .fail rfl, ok_bind, int_eq_zero, isConformant_eq]
  by_cases hzero :
      ((results.filter fun r => r.level = .must).countP fun r => r.result = .fail) = 0
  · rw [hcounter _ .error rfl, ok_bind, int_eq_zero]
    simp [hzero]
  · simp [hzero]

theorem ActsReport.isConformant_build (h : Report.build results suite info = .ok report) :
    ActsReport.isConformant report = .ok (Acts.isConformant results) := by
  obtain ⟨fields, rfl, hsummary, -⟩ := Report.build_fields h
  have hlevels : (Report.summarize results info.durationMs).item "by_level" = .ok
      (.object (Level.all.map fun level => (level.value, Report.levelSummary results level))) :=
    Value.item_object rfl
  rw [ActsReport.isConformant, Value.item_object hsummary, ok_bind, hlevels, ok_bind,
    Value.getOr_object, ok_bind]
  have hmust := Report.lookup_levels results .must
  rw [show "must" = Level.value .must from rfl, hmust, Option.getD_some, Report.levelSummary,
    verdict_of_counters, isConformant_eq]

namespace ProcessActsResults

theorem partOf_object {key : String} {fields inner : List (String × Value)}
    (h : fields.lookup key = some (.object inner)) (hinner : inner ≠ []) :
    partOf (.object fields) key = .ok (.object inner) := by
  rw [partOf, Value.getOr_object, h, ok_bind, Option.getD_some, orElse,
    if_pos (truthy_object hinner)]
  rfl

theorem isConformant_build (h : Report.build results suite info = .ok report) :
    isConformant report = .ok (Acts.isConformant results) := by
  obtain ⟨fields, rfl, hsummary, -⟩ := Report.build_fields h
  have hlevels : partOf (Report.summarize results info.durationMs) "by_level" = .ok
      (.object (Level.all.map fun level => (level.value, Report.levelSummary results level))) :=
    partOf_object rfl (by simp [Level.all])
  have hmust := partOf_object (Report.lookup_levels results .must)
    (by simp [Report.counters])
  have hsum : partOf (.object fields) "summary" = .ok (Report.summarize results info.durationMs) :=
    partOf_object hsummary (by simp)
  rw [isConformant, hsum, ok_bind, hlevels, ok_bind,
    show "must" = Level.value .must from rfl, hmust, ok_bind, verdict_of_counters,
    isConformant_eq]

theorem compileTest_ok (r : TestResult) :
    ∃ record, compileTest (Report.testResult r) = .ok record := by
  have hid : (Report.testResult r).item "id" = .ok (.str r.id) := Value.item_object rfl
  unfold compileTest
  rw [hid, ok_bind, Report.testResult, Value.given]
  simp only [Value.getOr_object, ok_bind, pure_eq_ok]
  exact ⟨_, rfl⟩

/-- The tests of a report are its placements without their suites. -/
theorem reportTests_eq (h : Report.build results suite info = .ok report)
    {grouped : Dict String Report.SuiteEntry}
    (hsuites : Report.suites results suite = grouped.values.map Report.SuiteEntry.json) :
    reportTests report = .ok ((Report.entriesOf grouped).map Prod.snd) := by
  obtain ⟨fields, rfl, -, hfield, -⟩ := Report.build_fields h
  have hloop : (grouped.values.map Report.SuiteEntry.json).mapM (fun suite => do
        let tests ← suite.getOr "tests" (.list [])
        tests.iterate : Value → Except PyError (List Value)) =
      .ok (grouped.entries.map fun field => field.2.tests) := by
    rw [Dict.values, List.map_map, List.mapM_map]
    apply mapM_eq_ok_of_forall
    rintro ⟨k, entry⟩ -
    have htests : (Report.SuiteEntry.json entry).getOr "tests" (.list []) =
        .ok (.list entry.tests) := Value.getOr_object _ _ _
    simp only [Function.comp_apply, htests, ok_bind]
    rfl
  have hiterate : (Value.list (grouped.values.map Report.SuiteEntry.json)).iterate =
      .ok (grouped.values.map Report.SuiteEntry.json) := rfl
  rw [reportTests, Value.getOr_object, hfield, ok_bind, Option.getD_some, hsuites, hiterate,
    ok_bind, hloop, ok_bind, Report.entriesOf, List.map_flatMap, ← List.flatMap_def]
  simp only [List.map_map, Function.comp_def, List.map_id', pure_eq_ok]

theorem compileTransport_build
    (hfrom : ∀ r ∈ results, r.id ∈ suite.tests.map LoadedTest.id)
    (h : Report.build results suite info = .ok report) :
    ∃ slice, compileTransport report = .ok slice ∧
      slice.conformant = Acts.isConformant results := by
  have hplaced := Report.placed_foldl (Dict.ofList (results.map fun r => (r.id, r))) suite.tests
  have htests := reportTests_eq h (Report.suites_eq hfrom)
  have hrecords : ∃ records, compileTests report = .ok records := by
    simp only [compileTests, htests, ok_bind, mapM_eq_ok_iff]
    apply exists_forall₂
    intro test htest
    obtain ⟨placed, hmem, rfl⟩ := List.mem_map.mp htest
    obtain ⟨loaded, -, hplacement⟩ := List.mem_filterMap.mp (hplaced.perm.mem_iff.mp hmem)
    obtain ⟨r, -, rfl⟩ := Option.map_eq_some_iff.mp hplacement
    exact compileTest_ok r
  obtain ⟨records, hrecords⟩ := hrecords
  have hconformant := isConformant_build h
  obtain ⟨fields, rfl, hsummary, -⟩ := Report.build_fields h
  have hsum : partOf (.object fields) "summary" = .ok (Report.summarize results info.durationMs) :=
    partOf_object hsummary (by simp)
  have hlevels : partOf (Report.summarize results info.durationMs) "by_level" = .ok
      (.object (Level.all.map fun level => (level.value, Report.levelSummary results level))) :=
    partOf_object rfl (by simp [Level.all])
  have hcounts : ∃ counts, countNames.mapM (fun k => do
      let v ← (Report.summarize results info.durationMs).getOr k (.int 0)
      pure (k, v) : String → Except PyError (String × Value)) = .ok counts := by
    simp only [mapM_eq_ok_iff]
    apply exists_forall₂
    intro k _
    rw [Report.summarize, Value.getOr_object]
    exact ⟨_, rfl⟩
  obtain ⟨counts, hcounts⟩ := hcounts
  refine ⟨⟨Acts.isConformant results, counts,
    .object (Level.all.map fun level => (level.value, Report.levelSummary results level)),
    records⟩, ?_, rfl⟩
  rw [compileTransport, hsum, ok_bind, hconformant, ok_bind, hcounts, ok_bind, hlevels, ok_bind,
    hrecords]
  rfl

/-- The run entry of a single report has the verdict of its results. -/
theorem buildRun_single (hfrom : ∀ r ∈ results, r.id ∈ suite.tests.map LoadedTest.id)
    (h : Report.build results suite info = .ok report) :
    ∃ entry, buildRun [report] = .ok entry ∧ entry.conformant = Acts.isConformant results := by
  obtain ⟨slice, hslice, hconformant⟩ := compileTransport_build hfrom h
  have htransport : transportOf report = .ok info.transport.value := by
    obtain ⟨fields, rfl, -, -, hfield⟩ := Report.build_fields h
    rw [transportOf, Value.getOr_object, hfield]
    rfl
  have hslices : [report].mapM (fun report => do
      let transport ← transportOf report
      let slice ← compileTransport report
      pure (transport, slice) : Value → Except PyError (String × Slice)) =
      .ok [(info.transport.value, slice)] := by
    apply mapM_eq_ok_iff.mpr
    simp [htransport, hslice]
  have hrun : ∃ entry, buildRun [report] = .ok entry ∧
      entry.conformant = [slice].all Slice.conformant := by
    rw [buildRun, hslices]
    exact ⟨_, rfl, rfl⟩
  obtain ⟨entry, hentry, hall⟩ := hrun
  exact ⟨entry, hentry, by simpa [hconformant] using hall⟩

end ProcessActsResults

/-- Every reader of a report reaches the runner's verdict, the totals of the report are
the sums over its levels, and each result is under the suite of its test, once. -/
theorem verdicts_agree (hids : (results.map fun r => r.id).Nodup)
    (hsuite : (suite.tests.map LoadedTest.id).Nodup)
    (hfrom : ∀ r ∈ results, r.id ∈ suite.tests.map LoadedTest.id)
    (h : Report.build results suite info = .ok report) :
    Report.isConformant report = .ok (isConformant results) ∧
    ActsReport.isConformant report = .ok (isConformant results) ∧
    ProcessActsResults.isConformant report = .ok (isConformant results) ∧
    (∃ entry, ProcessActsResults.buildRun [report] = .ok entry ∧
      entry.conformant = isConformant results) ∧
    (∀ key ∈ Report.counterNames, ∃ must should may : ℕ,
      Report.levelTotal report .must key = .ok (.int must) ∧
      Report.levelTotal report .should key = .ok (.int should) ∧
      Report.levelTotal report .may key = .ok (.int may) ∧
      Report.total report key = .ok (.int (must + should + may : ℕ))) ∧
    ∃ placed, Report.placements report = .ok placed ∧ placed.Perm (results.map fun r =>
      (.str ((Report.suiteOf suite r.id).getD ""), Report.testResult r)) :=
  ⟨Report.isConformant_build h, ActsReport.isConformant_build h,
    ProcessActsResults.isConformant_build h, ProcessActsResults.buildRun_single hfrom h,
    fun _ => Report.totals_add_up h, Report.placements_perm hids hsuite hfrom h⟩

/-- Two tests of one suite. -/
def twoTests : LoadedSuite where
  tests := [⟨guardedTest, "capabilities", "Capabilities", "suite.acts.yaml"⟩,
    ⟨wordedSkillTest, "capabilities", "Capabilities", "suite.acts.yaml"⟩]

/-- The first fails and the second passes. -/
def twoResults : List TestResult :=
  [guardedTest.resultOf { result := .fail, durationMs := 12 },
    wordedSkillTest.resultOf { result := .pass, durationMs := 7 }]

def pythonInfo : Report.Info where
  sdk := Dict.ofList [("name", "python"), ("version", "1.0"), ("language", "python")]
  transport := .jsonrpc
  durationMs := 19
  environment := Dict.empty
  generatedAt := "2026-01-01T00:00:00+00:00"

theorem two_results_agree :
    ∃ report, Report.build twoResults twoTests pythonInfo = .ok report ∧
      Report.isConformant report = .ok (isConformant twoResults) := by
  have hbuilt : ∃ report, Report.build twoResults twoTests pythonInfo = .ok report := ⟨_, rfl⟩
  obtain ⟨report, h⟩ := hbuilt
  refine ⟨report, h, (verdicts_agree (by decide) (by decide) ?_ h).1⟩
  intro r hr
  simp only [twoResults, List.mem_cons, List.not_mem_nil, or_false] at hr
  obtain rfl | rfl := hr
  · decide
  · decide

end Verdicts

end A2aItk.Acts
