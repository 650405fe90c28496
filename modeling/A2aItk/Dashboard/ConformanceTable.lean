import A2aItk.Dashboard.Conformance

/-!
# What the conformance table accounts for

Each result of a run stands in one cell, and every view of the rows counts them once.

## Implementation notes

Rows and reasons are both gathered by a loop over results, so the row of an id and the
reasons of a row are read off from the results with that key.
-/

namespace A2aItk.Dashboard

open Python (Dict)

/-- No transport reports a test twice. -/
def ActsRun.DistinctIds (run : ActsRun) : Prop :=
  ∀ entry ∈ run.results.entries, (entry.2.tests.map TestResult.id).Nodup

/-- Every result of the record, with the transport that reports it. -/
def ActsRun.everyResult (run : ActsRun) : List (Transport × TestResult) :=
  run.results.entries.flatMap fun entry => entry.2.tests.map (Prod.mk entry.1)

/-- One row for an id, one cell for a result, and no other cell. -/
structure PlacesEveryResult (run : ActsRun) (rows : List TestRow) : Prop where
  oneRow : (rows.map TestRow.id).Nodup
  placed : (rows.flatMap fun row => row.cells.entries).Perm run.everyResult
  ownId : ∀ row ∈ rows, ∀ cell ∈ row.cells.entries, cell.2.id = row.id

/-- The marks of a row say what its cells say. -/
structure Marked (row : TestRow) : Prop where
  failing : row.failing = true ↔ ∃ transport test, row.cells.get? transport = some test ∧
    (test.result = .fail ∨ test.result = .error)
  deviates : row.deviates = true ↔
    ∃ transport test, row.cells.get? transport = some test ∧ test.result ≠ .pass

/-- The transport ran the test, and it did not pass. -/
def NotPassed (row : TestRow) (transport : Transport) : Prop :=
  ∃ test, row.cells.get? transport = some test ∧ test.result ≠ .pass

/-- Two results have one reason: the same outcome, skip reason and failure, where what is missing
reads as empty. -/
structure SameReason (test test' : TestResult) : Prop where
  result : test.result = test'.result
  skipReason : test.skipReason.getD "" = test'.skipReason.getD ""
  message : (test.failure.map Failure.message).getD "" =
    (test'.failure.map Failure.message).getD ""
  stepId : (test.failure.bind Failure.stepId).getD "" = (test'.failure.bind Failure.stepId).getD ""
  expected : (test.failure.bind Failure.expected).getD "" =
    (test'.failure.bind Failure.expected).getD ""
  actual : (test.failure.bind Failure.actual).getD "" = (test'.failure.bind Failure.actual).getD ""
  assertionPath : (test.failure.bind Failure.assertionPath).getD "" =
    (test'.failure.bind Failure.assertionPath).getD ""

/-- Distinct reasons; who did not pass stands under its own, once, and nobody else does. -/
structure SortsDeviations (row : TestRow) (groups : List Deviation) : Prop where
  distinct : groups.Pairwise fun group group' => ¬ SameReason group.test group'.test
  once : (groups.flatMap Deviation.transports).Nodup
  covered : ∀ transport,
    transport ∈ groups.flatMap Deviation.transports ↔ NotPassed row transport
  ownReason : ∀ group ∈ groups, ∀ transport ∈ group.transports, ∃ test,
    row.cells.get? transport = some test ∧ SameReason test group.test

/-- Distinct suites; every row stands in its own, once, and no suite is empty. -/
structure PartitionsRows (rows : List TestRow) (groups : List SuiteGroup) : Prop where
  distinct : (groups.map SuiteGroup.suite).Nodup
  once : (groups.flatMap SuiteGroup.rows).Perm rows
  ownSuite : ∀ group ∈ groups, ∀ row ∈ group.rows, row.suite = group.suite
  inhabited : ∀ group ∈ groups, group.rows ≠ []

section Rows

variable {run : ActsRun} {row : TestRow} {rows : List TestRow}

/-- What a result does to its row. -/
def place (existing : Option TestRow) (result : Transport × TestResult) : TestRow :=
  addCell (existing.getD (newRow result.2)) result.1 result.2

/-- The results as the loop goes through them, column by column. -/
def ActsRun.columnResults (run : ActsRun) : List (Transport × TestResult) :=
  (runTransports run).flatMap fun transport => (testsOf run transport).map (Prod.mk transport)

/-- The rows are the results gathered by their ids. -/
theorem buildRows_eq_gather :
    buildRows run =
      (Dict.gather (fun result => result.2.id) place run.columnResults).values := by
  rw [buildRows, Dict.gather, ActsRun.columnResults, List.foldl_flatMap]
  simp only [List.foldl_map]
  rfl

/-- The results with one id. -/
def ActsRun.resultsFor (run : ActsRun) (id : String) : List (Transport × TestResult) :=
  run.columnResults.filter fun result => result.2.id = id

/-- No column stands twice. -/
theorem nodup_runTransports : (runTransports run).Nodup :=
  List.Nodup.filter _ (by decide)

/-- The columns are the transports there are results of. -/
theorem mem_runTransports {transport : Transport} :
    transport ∈ runTransports run ↔ transport ∈ run.results.keys := by
  have hall : transport ∈ transports := by
    cases transport <;> decide
  rw [runTransports, List.mem_filter, and_iff_right hall, ← not_iff_not, Bool.not_eq_true,
    Option.isSome_eq_false_iff, Option.isNone_iff_eq_none]
  exact Dict.get?_eq_none_iff

/-- The records of a column are those of its entry. -/
theorem testsOf_of_mem {entry : Transport × TransportResult}
    (h : entry ∈ run.results.entries) : testsOf run entry.1 = entry.2.tests := by
  have hget : run.results.get? entry.1 = some entry.2 := Dict.get?_eq_some_iff.mpr h
  rw [testsOf, hget]
  rfl

/-- The columns are those of the record: the loop misses no result and repeats none. -/
theorem columnResults_perm : run.columnResults.Perm run.everyResult := by
  have hcolumns : (runTransports run).Perm run.results.keys :=
    (List.perm_ext_iff_of_nodup nodup_runTransports run.results.distinct).mpr
      fun transport => mem_runTransports
  have hentries : run.results.entries.flatMap (fun entry =>
      (testsOf run entry.1).map (Prod.mk entry.1)) = run.everyResult :=
    List.flatMap_congr fun entry hentry => by rw [testsOf_of_mem hentry]
  calc
    run.columnResults.Perm (run.results.keys.flatMap fun transport =>
        (testsOf run transport).map (Prod.mk transport)) := hcolumns.flatMap_right _
    _ = run.everyResult := by rw [Dict.keys, List.flatMap_map, hentries]

theorem mem_columnResults {transport : Transport} {test : TestResult}
    (h : (transport, test) ∈ run.columnResults) :
    transport ∈ runTransports run ∧ test ∈ testsOf run transport := by
  obtain ⟨transport', hrun, hin⟩ := List.mem_flatMap.mp h
  obtain ⟨test', htest, heq⟩ := List.mem_map.mp hin
  obtain ⟨rfl, rfl⟩ := Prod.mk.inj heq
  exact ⟨hrun, htest⟩

/-- A column has one record for an id at most. -/
theorem ActsRun.DistinctIds.testsOf (h : run.DistinctIds) (transport : Transport) :
    ((testsOf run transport).map TestResult.id).Nodup := by
  unfold Dashboard.testsOf
  cases hget : run.results.get? transport with
  | none => exact List.nodup_nil
  | some result => exact h (transport, result) (Dict.get?_eq_some_iff.mp hget)

/-- A transport reports at most one result with an id. -/
theorem ActsRun.DistinctIds.nodup_resultsFor (h : run.DistinctIds) (id : String) :
    ((run.resultsFor id).map Prod.fst).Nodup := by
  have hpairs : (run.columnResults.map fun result => (result.1, result.2.id)).Nodup := by
    rw [ActsRun.columnResults, List.map_flatMap, List.nodup_flatMap]
    constructor
    · intro transport _
      rw [List.map_map]
      refine List.Nodup.of_map Prod.snd ?_
      simpa [List.map_map, Function.comp_def] using h.testsOf transport
    · refine nodup_runTransports.imp fun {a b} hab => ?_
      change List.Disjoint _ _
      rw [List.disjoint_left]
      intro pair ha hb
      simp only [List.map_map, List.mem_map, Function.comp_apply] at ha hb
      obtain ⟨test, -, rfl⟩ := ha
      obtain ⟨test', -, heq⟩ := hb
      exact hab (Prod.mk.inj heq).1.symm
  have hsub := (hpairs.sublist (List.filter_sublist.map _) :
    ((run.resultsFor id).map fun result => (result.1, result.2.id)).Nodup)
  have hid : ((run.resultsFor id).map fun result => (result.1, result.2.id)) =
      ((run.resultsFor id).map Prod.fst).map fun transport => (transport, id) := by
    rw [List.map_map]
    refine List.map_congr_left fun result hresult => ?_
    have heq : result.2.id = id := by simpa using (List.mem_filter.mp hresult).2
    simp [heq]
  rw [hid] at hsub
  exact hsub.of_map _

/-- A row that holds just these results. -/
structure Holds (row : TestRow) (results : List (Transport × TestResult)) : Prop where
  cells : row.cells.entries = results
  deviates : row.deviates = results.any fun result => result.2.result ≠ .pass
  failing : row.failing =
    results.any fun result => result.2.result = .fail || result.2.result = .error

/-- One more cell is held, with the marks it gives. -/
theorem Holds.addCell {results : List (Transport × TestResult)} {transport : Transport}
    {test : TestResult} (h : Holds row results) (hout : transport ∉ results.map Prod.fst) :
    Holds (addCell row transport test) (results ++ [(transport, test)]) where
  cells := by
    have hkeys : transport ∉ row.cells.keys := by
      rw [Dict.keys, h.cells]
      exact hout
    rw [← h.cells]
    exact Dict.entries_set_of_notMem test hkeys
  deviates := by
    rw [List.any_append, ← h.deviates]
    simp [Dashboard.addCell]
  failing := by
    rw [List.any_append, ← h.failing]
    simp [Dashboard.addCell]

/-- A row that is just begun holds nothing. -/
theorem holds_newRow (test : TestResult) : Holds (newRow test) [] := ⟨rfl, rfl, rfl⟩

/-- Results of distinct transports fill a row one after the other. -/
theorem holds_foldl_place {id : String} {results front : List (Transport × TestResult)}
    {existing : Option TestRow}
    (hids : ∀ result ∈ results, result.2.id = id)
    (hdistinct : ((front ++ results).map Prod.fst).Nodup)
    (hexisting : ∀ row, existing = some row →
      Holds row front ∧ row.id = id ∧ row.suite = suiteOf id)
    (hfront : existing = none → front = [])
    (h : results.foldl (fun row result => some (place row result)) existing = some row) :
    Holds row (front ++ results) ∧ row.id = id ∧ row.suite = suiteOf id := by
  induction results generalizing existing front with
  | nil =>
      rw [List.append_nil]
      exact hexisting row h
  | cons result rest ih =>
      obtain ⟨transport, test⟩ := result
      have hid : test.id = id := hids (transport, test) (by simp)
      have hout : transport ∉ front.map Prod.fst := by
        intro hin
        rw [List.map_append, List.nodup_append] at hdistinct
        exact hdistinct.2.2 transport hin transport (by simp) rfl
      have hplaced : Holds (place existing (transport, test)) (front ++ [(transport, test)]) ∧
          (place existing (transport, test)).id = id ∧
          (place existing (transport, test)).suite = suiteOf id := by
        cases existing with
        | none =>
            obtain rfl := hfront rfl
            exact ⟨(holds_newRow test).addCell hout, hid, congrArg suiteOf hid⟩
        | some existing =>
            obtain ⟨hholds, hown, hsuite⟩ := hexisting existing rfl
            exact ⟨hholds.addCell hout, hown, hsuite⟩
      rw [List.append_cons] at hdistinct ⊢
      refine ih (fun result hresult => hids result (by simp [hresult])) hdistinct ?_ ?_ h
      · rintro _ ⟨⟩
        exact hplaced
      · exact fun hnone => absurd hnone (Option.some_ne_none _)

/-- The row of an id holds the results with that id. -/
theorem holds_of_gather (h : run.DistinctIds) {id : String}
    (hrow : (Dict.gather (fun result => result.2.id) place run.columnResults).get? id = some row) :
    Holds row (run.resultsFor id) ∧ row.id = id ∧ row.suite = suiteOf id := by
  rw [Dict.get?_gather] at hrow
  refine @holds_foldl_place _ _ (run.resultsFor id) [] _ ?_ (h.nodup_resultsFor id) ?_
    (fun _ => rfl) hrow
  · intro result hresult
    simpa using (List.mem_filter.mp hresult).2
  · exact fun _ hnone => absurd hnone.symm (Option.some_ne_none _)

/-- A row holds the results with its id. -/
theorem holds_of_mem_buildRows (h : run.DistinctIds) (hrow : row ∈ buildRows run) :
    Holds row (run.resultsFor row.id) := by
  rw [buildRows_eq_gather, Dict.values, List.mem_map] at hrow
  obtain ⟨⟨id, row⟩, hentry, rfl⟩ := hrow
  obtain ⟨hholds, hid, -⟩ := holds_of_gather h (Dict.get?_eq_some_iff.mpr hentry)
  rw [hid]
  exact hholds

/-- Each result has its cell, in the one row of its test. -/
theorem buildRows_places (h : run.DistinctIds) : PlacesEveryResult run (buildRows run) where
  oneRow := by
    have hids : (buildRows run).map TestRow.id =
        (Dict.gather (fun result => result.2.id) place run.columnResults).keys := by
      rw [buildRows_eq_gather, Dict.values, List.map_map, Dict.keys]
      exact List.map_congr_left fun entry hentry =>
        (holds_of_gather h (Dict.get?_eq_some_iff.mpr hentry)).2.1
    rw [hids]
    exact Dict.distinct _
  placed := by
    refine List.Perm.trans ?_ columnResults_perm
    rw [buildRows_eq_gather, Dict.values, List.flatMap_map]
    conv_rhs => rw [← List.map_id run.columnResults]
    refine Dict.perm_flatMap_gather fun id row hrow => ?_
    rw [(holds_of_gather h hrow).1.cells, List.map_id, ActsRun.resultsFor]
  ownId := by
    intro row hrow cell hcell
    rw [(holds_of_mem_buildRows h hrow).cells] at hcell
    simpa using (List.mem_filter.mp hcell).2

/-- A property of some result is one of some cell. -/
theorem exists_cell_iff {results : List (Transport × TestResult)} (h : Holds row results)
    (p : TestResult → Bool) :
    (results.any fun result => p result.2) = true ↔
      ∃ transport test, row.cells.get? transport = some test ∧ p test = true := by
  rw [List.any_eq_true, ← h.cells]
  constructor
  · rintro ⟨⟨transport, test⟩, hcell, htest⟩
    exact ⟨transport, test, Dict.get?_eq_some_iff.mpr hcell, htest⟩
  · rintro ⟨transport, test, hcell, htest⟩
    exact ⟨(transport, test), Dict.get?_eq_some_iff.mp hcell, htest⟩

/-- A row is marked by its cells. -/
theorem Holds.marked {results : List (Transport × TestResult)} (h : Holds row results) :
    Marked row where
  failing := by
    rw [h.failing, exists_cell_iff h fun test => test.result = .fail || test.result = .error]
    simp
  deviates := by
    rw [h.deviates, exists_cell_iff h fun test => test.result ≠ .pass]
    simp

end Rows

section Reasons

variable {row : TestRow} {columns : List Transport}

/-- The transport with its result, where it did not pass. -/
def deviating (row : TestRow) (transport : Transport) : Option (Transport × TestResult) :=
  (row.cells.get? transport).bind fun test =>
    if test.result = .pass then none else some (transport, test)

theorem deviating_eq_some {transport : Transport} {result : Transport × TestResult} :
    deviating row transport = some result ↔
      result.1 = transport ∧ row.cells.get? transport = some result.2 ∧
        result.2.result ≠ .pass := by
  obtain ⟨transport', test⟩ := result
  rw [deviating, Option.bind_eq_some_iff]
  constructor
  · rintro ⟨test', hcell, htest⟩
    split at htest
    · cases htest
    · rename_i hpass
      cases htest
      exact ⟨rfl, hcell, hpass⟩
  · rintro ⟨rfl, hcell, hpass⟩
    exact ⟨test, hcell, if_neg hpass⟩

theorem isSome_deviating {transport : Transport} :
    (deviating row transport).isSome = true ↔ NotPassed row transport := by
  rw [Option.isSome_iff_exists]
  constructor
  · rintro ⟨result, hresult⟩
    obtain ⟨-, hcell, hpass⟩ := deviating_eq_some.mp hresult
    exact ⟨result.2, hcell, hpass⟩
  · rintro ⟨test, hcell, hpass⟩
    exact ⟨(transport, test), deviating_eq_some.mpr ⟨rfl, hcell, hpass⟩⟩

theorem map_fst_deviating :
    (columns.filterMap (deviating row)).map Prod.fst =
      columns.filter fun transport => (deviating row transport).isSome := by
  rw [List.map_filterMap, ← List.filterMap_eq_filter]
  refine List.filterMap_congr fun transport _ => ?_
  cases h : deviating row transport with
  | none => simp [Option.guard, h]
  | some result => simp [Option.guard, h, (deviating_eq_some.mp h).1]

/-- What a result does to the group of its reason. -/
def regroup (existing : Option Deviation) (result : Transport × TestResult) : Deviation :=
  addDeviation existing result.1 result.2

/-- The deviations are the cells that have not passed, gathered by their reasons. -/
theorem deviationsOf_eq_gather :
    deviationsOf row columns =
      (Dict.gather (fun result => reasonKey result.2) regroup
        (columns.filterMap (deviating row))).values := by
  rw [deviationsOf, Dict.gather, List.foldl_filterMap]
  refine congrArg Dict.values (List.foldl_ext _ _ _ fun byReason transport _ => ?_)
  rw [deviating]
  cases row.cells.get? transport with
  | none => rfl
  | some test =>
      by_cases hpass : test.result = .pass
      · simp [hpass]
      · simp [hpass, regroup]

/-- Results with one reason make a group of that reason. -/
theorem foldl_regroup {key : String} {results : List (Transport × TestResult)}
    {front : List Transport} {existing : Option Deviation} {group : Deviation}
    (hkeys : ∀ result ∈ results, reasonKey result.2 = key)
    (hexisting : ∀ group, existing = some group →
      group.transports = front ∧ reasonKey group.test = key)
    (hfront : existing = none → front = [])
    (h : results.foldl (fun group result => some (regroup group result)) existing = some group) :
    group.transports = front ++ results.map Prod.fst ∧ reasonKey group.test = key := by
  induction results generalizing existing front with
  | nil =>
      rw [List.map_nil, List.append_nil]
      exact hexisting group h
  | cons result rest ih =>
      rw [List.map_cons, List.append_cons]
      refine ih (fun result hresult => hkeys result (by simp [hresult])) ?_ ?_ h
      · rintro _ ⟨⟩
        cases existing with
        | none =>
            rw [hfront rfl]
            exact ⟨rfl, hkeys result (by simp)⟩
        | some existing =>
            obtain ⟨htransports, hkey⟩ := hexisting existing rfl
            exact ⟨congrArg (· ++ [result.1]) htransports, hkey⟩
      · exact fun hnone => absurd hnone (Option.some_ne_none _)

theorem group_of_gather {key : String} {group : Deviation}
    (h : (Dict.gather (fun result => reasonKey result.2) regroup
      (columns.filterMap (deviating row))).get? key = some group) :
    group.transports = ((columns.filterMap (deviating row)).filter fun result =>
      reasonKey result.2 = key).map Prod.fst ∧ reasonKey group.test = key := by
  rw [Dict.get?_gather] at h
  refine @foldl_regroup key _ [] none group ?_ ?_ (fun _ => rfl) h
  · intro result hresult
    simpa using (List.mem_filter.mp hresult).2
  · exact fun _ hnone => absurd hnone.symm (Option.some_ne_none _)

theorem Outcome.text_injective : Function.Injective Outcome.text := by
  intro outcome outcome' h
  cases outcome <;> cases outcome' <;> first | rfl | exact absurd h (by decide)

/-- The list of a test says its reason. -/
theorem reasonOf_eq_iff {test test' : TestResult} :
    reasonOf test = reasonOf test' ↔ SameReason test test' := by
  constructor
  · intro h
    simp only [reasonOf, List.cons.injEq, and_true] at h
    obtain ⟨hresult, hskip, hmessage, hstep, hexpected, hactual, hpath⟩ := h
    exact ⟨Outcome.text_injective hresult, hskip, hmessage, hstep, hexpected, hactual, hpath⟩
  · rintro ⟨hresult, hskip, hmessage, hstep, hexpected, hactual, hpath⟩
    simp only [reasonOf, hresult, hskip, hmessage, hstep, hexpected, hactual, hpath]

/-- Tests have one key just when they have one reason. -/
theorem reasonKey_eq_iff {test test' : TestResult} :
    reasonKey test = reasonKey test' ↔ SameReason test test' := by
  rw [← reasonOf_eq_iff]
  exact ⟨fun h => stringify_inj rfl h, fun h => congrArg stringify h⟩

theorem flatMap_transports_perm :
    ((deviationsOf row columns).flatMap Deviation.transports).Perm
      ((columns.filterMap (deviating row)).map Prod.fst) := by
  rw [deviationsOf_eq_gather, Dict.values, List.flatMap_map]
  exact Dict.perm_flatMap_gather fun key group hgroup => (group_of_gather hgroup).1

/-- Each cell that has not passed is under its reason, and under no other. -/
theorem deviationsOf_sorts (hcolumns : columns.Nodup)
    (hcells : ∀ transport, NotPassed row transport → transport ∈ columns) :
    SortsDeviations row (deviationsOf row columns) where
  distinct := by
    have hkeys : ((deviationsOf row columns).map fun group => reasonKey group.test).Nodup := by
      rw [deviationsOf_eq_gather, Dict.values, List.map_map]
      have heq : (Dict.gather (fun result => reasonKey result.2) regroup
          (columns.filterMap (deviating row))).entries.map
            ((fun group => reasonKey group.test) ∘ Prod.snd) =
          (Dict.gather (fun result => reasonKey result.2) regroup
            (columns.filterMap (deviating row))).keys :=
        List.map_congr_left fun entry hentry =>
          (group_of_gather (Dict.get?_eq_some_iff.mpr hentry)).2
      rw [heq]
      exact Dict.distinct _
    refine (List.pairwise_map.mp hkeys).imp fun hne hsame => ?_
    exact hne (reasonKey_eq_iff.mpr hsame)
  once := by
    rw [flatMap_transports_perm.nodup_iff]
    rw [map_fst_deviating]
    exact hcolumns.filter _
  covered := by
    intro transport
    rw [flatMap_transports_perm.mem_iff, map_fst_deviating, List.mem_filter, isSome_deviating]
    exact and_iff_right_of_imp (hcells transport)
  ownReason := by
    intro group hgroup transport htransport
    rw [deviationsOf_eq_gather, Dict.values, List.mem_map] at hgroup
    obtain ⟨⟨key, group⟩, hentry, rfl⟩ := hgroup
    obtain ⟨htransports, hkey⟩ := group_of_gather (Dict.get?_eq_some_iff.mpr hentry)
    rw [htransports, List.mem_map] at htransport
    obtain ⟨result, hresult, rfl⟩ := htransport
    obtain ⟨hin, hown⟩ := List.mem_filter.mp hresult
    obtain ⟨transport, -, hdeviating⟩ := List.mem_filterMap.mp hin
    obtain ⟨rfl, hcell, -⟩ := deviating_eq_some.mp hdeviating
    refine ⟨result.2, hcell, reasonKey_eq_iff.mp ?_⟩
    rw [hkey]
    simpa using hown

end Reasons

section Views

variable {rows : List TestRow}

/-- Each row is in the group of its suite, once. -/
theorem groupBySuite_partitions : PartitionsRows rows (groupBySuite rows) where
  distinct := by
    rw [groupBySuite, List.map_map]
    exact (Dict.gatherLists TestRow.suite id rows).distinct
  once := by
    rw [groupBySuite, List.flatMap_map]
    conv_rhs => rw [← List.map_id rows]
    exact Dict.perm_flatMap_gather fun suite collected hrows => Dict.get?_gatherLists hrows
  ownSuite := by
    intro group hgroup row hrow
    obtain ⟨entry, hentry, rfl⟩ := List.mem_map.mp hgroup
    rw [Dict.get?_gatherLists (Dict.get?_eq_some_iff.mpr hentry), List.map_id] at hrow
    simpa using (List.mem_filter.mp hrow).2
  inhabited := by
    intro group hgroup
    obtain ⟨entry, hentry, rfl⟩ := List.mem_map.mp hgroup
    have hkey : entry.1 ∈ (Dict.gatherLists TestRow.suite id rows).keys :=
      List.mem_map.mpr ⟨entry, hentry, rfl⟩
    obtain ⟨row, hrow, hsuite⟩ := Dict.mem_keys_gather.mp hkey
    rw [Dict.get?_gatherLists (Dict.get?_eq_some_iff.mpr hentry), List.map_id]
    exact List.ne_nil_of_mem (List.mem_filter.mpr ⟨hrow, by simpa using hsuite⟩)

/-- The counters are the numbers of rows the filters select. -/
theorem filterCounts_get (filter : RowFilter) :
    (filterCounts rows).get filter = (rows.filter fun row => rowMatches row filter).length := by
  have hfold : ∀ (rest : List TestRow) (counted : ℕ × ℕ),
      rest.foldl (fun (counted : ℕ × ℕ) row =>
        if row.failing then (counted.1 + 1, counted.2)
        else if row.deviates then (counted.1, counted.2 + 1)
        else counted) counted =
      (counted.1 + rest.countP fun row => row.failing,
        counted.2 + rest.countP fun row => row.deviates && !row.failing) := by
    intro rest
    induction rest with
    | nil => exact fun _ => rfl
    | cons row rest ih =>
        intro counted
        rw [List.foldl_cons, ih, List.countP_cons, List.countP_cons]
        cases hfailing : row.failing with
        | true =>
            simp only [if_true, Bool.not_true, Bool.and_false, Bool.false_eq_true, if_false,
              Prod.mk.injEq]
            omega
        | false =>
            cases hdeviates : row.deviates with
            | true =>
                simp only [if_true, Bool.not_false, Bool.and_self, Bool.false_eq_true, if_false,
                  Prod.mk.injEq]
                omega
            | false => simp
  rw [filterCounts, hfold, ← List.countP_eq_length_filter]
  cases filter with
  | all => simp [FilterCounts.get, rowMatches]
  | failing => simp [FilterCounts.get, rowMatches]
  | skipped => simp [FilterCounts.get, rowMatches]

end Views

section Table

variable {run : ActsRun}

/-- Rows, marks, reasons, suites and counts. -/
structure AccountsFor (run : ActsRun) (rows : List TestRow) : Prop where
  results : PlacesEveryResult run rows
  marks : ∀ row ∈ rows, Marked row
  reasons : ∀ row ∈ rows, SortsDeviations row (deviationsOf row (runTransports run))
  suites : PartitionsRows rows (groupBySuite rows)
  counts : ∀ filter,
    (filterCounts rows).get filter = (rows.filter fun row => rowMatches row filter).length

theorem buildRows_accountsFor (run : ActsRun) (h : run.DistinctIds) :
    AccountsFor run (buildRows run) where
  results := buildRows_places h
  marks row hrow := (holds_of_mem_buildRows h hrow).marked
  reasons := by
    intro row hrow
    refine deviationsOf_sorts nodup_runTransports ?_
    rintro transport ⟨test, hcell, -⟩
    have hin : (transport, test) ∈ run.resultsFor row.id := by
      rw [← (holds_of_mem_buildRows h hrow).cells]
      exact Dict.get?_eq_some_iff.mp hcell
    exact (mem_columnResults (List.mem_of_mem_filter hin)).1
  suites := groupBySuite_partitions
  counts := filterCounts_get

/-- One test, skipped by one transport and run by another. -/
def twoTransports : ActsRun where
  results := Dict.ofList [
    (.rest, ⟨[{ id := "CORE-SEND-002", level := .must, result := .skip }]⟩),
    (.jsonrpc, ⟨[{ id := "CORE-SEND-002", level := .must, result := .pass }]⟩)]

theorem twoTransports_distinctIds : twoTransports.DistinctIds := by
  unfold ActsRun.DistinctIds
  decide +kernel

theorem buildRows_accountsFor_twoTransports :
    AccountsFor twoTransports (buildRows twoTransports) :=
  buildRows_accountsFor twoTransports twoTransports_distinctIds

end Table

end A2aItk.Dashboard
