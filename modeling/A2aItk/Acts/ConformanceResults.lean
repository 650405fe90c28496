import A2aItk.Acts.ConformanceRuns
import A2aItk.Acts.Reruns

/-!
# The results of a conformance run

What a run returns is what the deviation passes make of the first pass: the run refines
`Deployment.applyDeviations`.
-/

namespace A2aItk.Acts

open Python

/-- No `must` test failed. -/
theorem isConformant_iff (results : List TestResult) :
    isConformant results = true ↔
      ∀ r ∈ results, r.level = .must → r.result = .pass ∨ r.result = .skip := by
  rw [isConformant, Bool.not_eq_true', List.any_eq_false]
  apply forall₂_congr
  intro r _
  cases r.result <;> simp

section Runner

variable {σ : Type} (runner : Runner σ)

/-- `run_test` reports on the test it was given. -/
theorem returnsOnly_runTest (test : Test) (vars : Dict String Value) :
    Effects.ReturnsOnly (fun r => ∃ verdict, r = test.toTestFields.resultOf verdict)
      (runner.runTest test vars) := by
  have htest : ∀ outcome started failure steps, Effects.ReturnsOnly
      (fun r => ∃ verdict, r = test.toTestFields.resultOf verdict)
      (runner.testResult test.toTestFields outcome started failure steps) := by
    intro outcome started failure steps
    apply Effects.ReturnsOnly.bind
    exact fun durationMs => .pure ⟨_, rfl⟩
  unfold Runner.runTest
  apply Effects.ReturnsOnly.bind
  intro started
  split
  · exact htest _ _ _ _
  · exact .throw _ _
  · apply Effects.ReturnsOnly.bind
    exact fun durationMs => .pure ⟨_, rfl⟩
  · split
    · exact htest _ _ _ _
    · apply Effects.ReturnsOnly.bind
      rintro ⟨steps, last, scope⟩
      cases last with
      | some last => exact htest _ _ _ _
      | none =>
          apply Effects.ReturnsOnly.bind
          intro failure
          cases failure with
          | some failure => exact htest _ _ _ _
          | none => exact htest _ _ _ _

/-- `run_suite` reports on every test, in order. -/
theorem runSuite_eq_ok {vars : Dict String Value} {tests : List Test} {s t : σ}
    {results : List TestResult} (h : runner.runSuite vars tests s = .ok results t) :
    ∃ verdict : ℕ → Verdict, results = tests.mapIdx fun i test => test.resultOf (verdict i) := by
  unfold Runner.runSuite at h
  induction tests generalizing s results with
  | nil =>
      cases h
      exact ⟨fun _ => { result := .pass, durationMs := 0 }, rfl⟩
  | cons test rest ih =>
      rw [List.mapM_cons] at h
      obtain ⟨r, s', hr, h⟩ := Effects.bind_eq_ok_iff.mp h
      obtain ⟨rs, s'', hrs, h⟩ := Effects.bind_eq_ok_iff.mp h
      cases h
      obtain ⟨first, rfl⟩ := returnsOnly_runTest runner test _ s r s' hr
      obtain ⟨verdict, rfl⟩ := ih hrs
      refine ⟨fun i => Nat.casesOn i first verdict, ?_⟩
      rw [List.mapIdx_cons]
      rfl

end Runner

/-- The results of a pass over a suite. -/
def ReportsAll (suite : LoadedSuite) (results : List TestResult) : Prop :=
  ∃ verdict : ℕ → Verdict,
    results = (suite.tests.map LoadedTest.test).mapIdx fun i test => test.resultOf (verdict i)

/-- A pass over the suite reports on each of its tests, in load order. -/
theorem ReportsAll.ids {suite : LoadedSuite} {results : List TestResult}
    (h : ReportsAll suite results) :
    results.map TestResult.id = suite.tests.map LoadedTest.id := by
  obtain ⟨verdict, rfl⟩ := h
  apply List.ext_getElem
  · simp
  · intro i hi hi'
    simp [LoadedTest.id]

/-- The abstract run reruns some tests for the pass. -/
def Deployment.Reruns (deployment : Deployment) (beyond : Char → Bool) (pass : Pass)
    (results : List TestResult) : Prop :=
  deployment.available pass = true ∧ (pass.skipsMatching beyond results).entries.isEmpty = false

section World

variable {σ : Type}

/-- The world a deviated SUT is interrogated in: a spawned one inherits the variable of its
pass. -/
def World.deviated (pass : Pass) (url : Option String) (w : World σ) : World σ :=
  if url.isNone then { w with environ := w.environ.set pass.envVar "1" } else w

/-- The world after it, with the variable as it was before. -/
def World.restored (pass : Pass) (url : Option String) (w e : World σ) : World σ :=
  if url.isNone then
    { e with environ := Harness.putBack pass.envVar w.environ e.environ }
  else e

/-- What interrogating a SUT came to is an outcome of the abstract run, and left a world. -/
inductive CameTo (tests : List Test) :
    EStateM.Result RunFailure (World σ) (List TestResult × Value) → PassOutcome → World σ → Prop
  | ran (card : Value) (verdict : ℕ → Verdict) (e : World σ) :
      CameTo tests (.ok (tests.mapIdx fun i test => test.resultOf (verdict i), card) e)
        (.ran card verdict) e
  | failed (failure : RunFailure) (e : World σ) (h : failure.isActsRunError = true) :
      CameTo tests (.error failure e) .actsRunError e

end World

namespace Harness

variable {σ : Type} (harness : Harness σ) {context : PassContext} {suite : LoadedSuite}

/-- The results of a pass are what `run_suite` returned: over the tests of the pass, for a
runner that speaks to the agent whose card the pass read. -/
def Interrogates (context : PassContext) (suite : LoadedSuite)
    (pair : List TestResult × Value) : Prop :=
  ∃ (target baseUrl : String) (environ : Dict String String) (receiver : Option ℕ) (s t : σ),
    (harness.runnerOf context (harness.connect context.transport target baseUrl) pair.2 environ
      receiver).runSuite (documentVars suite) (suite.tests.map LoadedTest.test) s = .ok pair.1 t

variable {harness} in
theorem Interrogates.reportsAll {pair : List TestResult × Value}
    (h : harness.Interrogates context suite pair) : ReportsAll suite pair.1 := by
  obtain ⟨target, baseUrl, environ, receiver, s, t, hsuite⟩ := h
  exact runSuite_eq_ok _ hsuite

theorem buildDispatcher_eq_ok {card : Value} {binding : TransportBinding} {baseUrl : String}
    {dispatcher : Runner σ} (h : harness.buildDispatcher card binding baseUrl = .ok dispatcher) :
    ∃ target, dispatcher = harness.connect binding target baseUrl := by
  obtain ⟨url, -, h⟩ := bind_eq_ok_iff.mp h
  cases binding with
  | grpc => exact ⟨_, (Except.ok.inj h).symm⟩
  | jsonrpc => exact ⟨url, (Except.ok.inj h).symm⟩
  | rest => exact ⟨url, (Except.ok.inj h).symm⟩

theorem returnsOnly_interrogate (target baseUrl : String) (card : Value) (receiver : Option ℕ) :
    Effects.ReturnsOnly (harness.Interrogates context suite)
      (harness.interrogate context suite (harness.connect context.transport target baseUrl) card
        receiver) := by
  intro w pair t hrun
  obtain ⟨w', w'', hget, hrun⟩ := Effects.bind_eq_ok_iff.mp hrun
  obtain ⟨results, w₁, hinside, hrun⟩ := Effects.bind_eq_ok_iff.mp hrun
  cases hrun
  unfold inside at hinside
  split at hinside
  · rename_i hsuite
    cases hinside
    exact ⟨target, baseUrl, _, receiver, _, _, hsuite⟩
  · cases hinside

theorem returnsOnly_runAt (baseUrl : String) :
    Effects.ReturnsOnly (harness.Interrogates context suite)
      (harness.runAt context suite baseUrl) := by
  intro w pair t hrun
  obtain ⟨card, w', -, hrun⟩ := Effects.bind_eq_ok_iff.mp hrun
  obtain ⟨dispatcher, w'', hlift, hrun⟩ := Effects.bind_eq_ok_iff.mp hrun
  obtain ⟨hdispatcher, -⟩ := Effects.lift_apply_eq_ok_iff.mp hlift
  obtain ⟨target, rfl⟩ := harness.buildDispatcher_eq_ok hdispatcher
  -- the rest is the block inside its two context managers
  refine Effects.ReturnsOnly.ensuring ?_ _ w'' pair t hrun
  apply Effects.ReturnsOnly.bind
  intro reserved
  cases reserved with
  | error e => exact .throw _ _
  | ok port =>
      apply Effects.ReturnsOnly.bind
      intro _
      apply Effects.ReturnsOnly.bind
      intro spawned
      cases spawned with
      | some e => exact .throw _ _
      | none =>
          apply Effects.ReturnsOnly.bind
          intro _
          apply Effects.ReturnsOnly.ensuring
          apply Effects.ReturnsOnly.bind
          intro polled
          cases polled with
          | error e => exact .throw _ _
          | ok up => exact harness.returnsOnly_interrogate target baseUrl card _

theorem returnsOnly_runPass (pass : Option Pass) (sutUrl : Option String) :
    Effects.ReturnsOnly (harness.Interrogates context suite)
      (harness.runPass context pass suite sutUrl) := by
  cases sutUrl with
  | some url => exact harness.returnsOnly_runAt url
  | none =>
      apply Effects.ReturnsOnly.ensuring
      apply Effects.ReturnsOnly.bind
      exact fun baseUrl => harness.returnsOnly_runAt baseUrl

theorem narrowed_tests (suite : LoadedSuite) (pass : Pass) (results : List TestResult) :
    (subset suite fun loaded => decide
      (loaded.id ∈ (pass.skipsMatching harness.beyond results).keys)).tests.map LoadedTest.test =
      Deployment.narrowed harness.beyond (suite.tests.map LoadedTest.test) pass results := by
  rw [Deployment.narrowed, List.filter_map]
  rfl

/-- The results of a second SUT, in the place of the skips it was started for. -/
theorem spliced_eq {pass : Pass} {results rerun : List TestResult} {narrowed : LoadedSuite}
    {verdict : ℕ → Verdict}
    (h : rerun =
      (narrowed.tests.map LoadedTest.test).mapIdx fun i test => test.resultOf (verdict i)) :
    spliced pass results rerun = results.map fun r =>
      ((Deployment.replacement pass (narrowed.tests.map LoadedTest.test) verdict).get?
        r.id).getD r := by
  subst h
  unfold spliced Deployment.replacement
  have hstamped : ∀ tests : List Test,
      (tests.mapIdx fun i test => test.resultOf (verdict i)).map (fun r =>
        (r.id, { r with configuration := some pass.envVar })) =
      tests.mapIdx fun i test =>
        (test.id, { test.resultOf (verdict i) with configuration := some pass.envVar }) := by
    intro tests
    apply List.ext_getElem
    · simp
    · simp
  rw [← hstamped]

theorem deviatedPass_eq_ok_iff {pass : Pass} {url : Option String} {w t : World σ}
    {pair : List TestResult × Value} :
    harness.deviatedPass context pass suite url w = .ok pair t ↔
      ∃ e, harness.runPass context (some pass) suite url (w.deviated pass url) = .ok pair e ∧
        w.restored pass url e = t := by
  cases url with
  | none => exact Effects.ensuring_eq_ok_iff
  | some url =>
      constructor
      · exact fun h => ⟨t, h, rfl⟩
      · rintro ⟨e, h, rfl⟩
        exact h

theorem deviatedPass_eq_error_iff {pass : Pass} {url : Option String} {w t : World σ}
    {failure : RunFailure} :
    harness.deviatedPass context pass suite url w = .error failure t ↔
      ∃ e, harness.runPass context (some pass) suite url (w.deviated pass url) =
        .error failure e ∧ w.restored pass url e = t := by
  cases url with
  | none => exact Effects.ensuring_eq_error_iff
  | some url =>
      constructor
      · exact fun h => ⟨t, h, rfl⟩
      · rintro ⟨e, h, rfl⟩
        exact h

/-- One round of a run: the abstract run reruns nothing for the pass, or its pass is what the
harness's pass over the tests it can unblock came to. -/
inductive Round (context : PassContext) (suite : LoadedSuite) (deployment : Deployment)
    (pass : Pass) (results : List TestResult) (w : World σ) : List TestResult → World σ → Prop
  | idle (h : ¬ deployment.Reruns harness.beyond pass results) :
      Round context suite deployment pass results w results w
  | rerun {after : List TestResult} {e : World σ}
      (h : deployment.Reruns harness.beyond pass results)
      (hran : CameTo (Deployment.narrowed harness.beyond (suite.tests.map LoadedTest.test) pass
          results)
        (harness.runPass context (some pass)
          (subset suite fun loaded => decide
            (loaded.id ∈ (pass.skipsMatching harness.beyond results).keys))
          (deployment.deviationUrl pass) (w.deviated pass (deployment.deviationUrl pass)))
        (deployment.runPass pass (Deployment.narrowed harness.beyond
          (suite.tests.map LoadedTest.test) pass results)) e)
      (hround : deployment.deviate harness.beyond (suite.tests.map LoadedTest.test) pass results =
        .ok after) :
      Round context suite deployment pass results w after
        (w.restored pass (deployment.deviationUrl pass) e)

/-- The rounds of a run, each on the results and in the world that the one before it left. -/
inductive Rounds (context : PassContext) (suite : LoadedSuite) (deployment : Deployment) :
    List Pass → List TestResult → World σ → List TestResult → World σ → Prop
  | done (results : List TestResult) (w : World σ) :
      Rounds context suite deployment [] results w results w
  | round {pass : Pass} {rest : List Pass} {results mid final : List TestResult}
      {w v t : World σ} (hround : harness.Round context suite deployment pass results w mid v)
      (hrest : Rounds context suite deployment rest mid v final t) :
      Rounds context suite deployment (pass :: rest) results w final t

variable {harness} {deployment : Deployment}

theorem Round.deviate {pass : Pass} {results after : List TestResult} {w t : World σ}
    (h : harness.Round context suite deployment pass results w after t) :
    deployment.deviate harness.beyond (suite.tests.map LoadedTest.test) pass results =
      .ok after := by
  cases h with
  | rerun _ _ hround => exact hround
  | idle h =>
      rw [Deployment.Reruns, not_and_or] at h
      unfold Deployment.deviate Deployment.rerunDeviation
      rcases h with h | h
      · rw [if_neg h]
      · rw [Bool.not_eq_false] at h
        dsimp only
        rw [if_pos h, ite_self]

/-- The rounds of a run are those of the abstract run. -/
theorem Rounds.foldlM {passes : List Pass} {results final : List TestResult} {w t : World σ}
    (h : harness.Rounds context suite deployment passes results w final t) :
    passes.foldlM (fun results pass => deployment.deviate harness.beyond
      (suite.tests.map LoadedTest.test) pass results) results = .ok final := by
  induction h with
  | done results w => rfl
  | round hround _ ih =>
      rw [List.foldlM_cons, hround.deviate]
      exact ih

variable (harness)

/-- A rerun that returns is one of the abstract run, for what its pass came to. -/
theorem rerunDeviation_refines {pass : Pass} {url : Option String}
    {results after : List TestResult} {w t : World σ}
    (h : harness.rerunDeviation context suite pass url results w = .ok after t) :
    ∃ outcome : PassOutcome, ∀ deployment : Deployment, deployment.available pass = true →
      deployment.deviationUrl pass = url →
      (∀ tests, deployment.runPass pass tests = outcome) →
      harness.Round context suite deployment pass results w after t := by
  unfold Harness.rerunDeviation at h
  dsimp only at h
  by_cases hempty : (pass.skipsMatching harness.beyond results).entries.isEmpty = true
  · rw [if_pos hempty] at h
    cases h
    refine ⟨.actsRunError, fun deployment _ _ _ => .idle fun hreruns => ?_⟩
    rw [hreruns.2] at hempty
    cases hempty
  · rw [if_neg hempty] at h
    obtain ⟨outcome, w', hattempt, hjudged⟩ := Effects.bind_eq_ok_iff.mp h
    obtain ⟨hjudged, rfl⟩ := Effects.lift_apply_eq_ok_iff.mp hjudged
    have hround (deployment : Deployment) (havailable : deployment.available pass = true) :
        deployment.deviate harness.beyond (suite.tests.map LoadedTest.test) pass results =
          deployment.rerunDeviation harness.beyond (suite.tests.map LoadedTest.test) pass
            results := by
      unfold Deployment.deviate
      rw [if_pos havailable]
    cases outcome with
    | error failure =>
        obtain ⟨e, hpass, rfl⟩ := (harness.deviatedPass_eq_error_iff).mp
          (Effects.attempt_apply_eq_error_iff.mp hattempt)
        rw [judged] at hjudged
        split at hjudged
        · rename_i hfailure
          cases hjudged
          refine ⟨.actsRunError, ?_⟩
          rintro deployment havailable rfl hrun
          apply Round.rerun ⟨havailable, Bool.not_eq_true _ ▸ hempty⟩
          · rw [hpass, hrun]
            exact .failed failure e hfailure
          · rw [hround deployment havailable]
            simp only [Deployment.rerunDeviation, if_neg hempty, hrun]
        · cases hjudged
    | ok pair =>
        obtain ⟨rerun, card⟩ := pair
        obtain ⟨e, hpass, rfl⟩ := (harness.deviatedPass_eq_ok_iff).mp
          (Effects.attempt_apply_eq_ok_iff.mp hattempt)
        obtain ⟨verdict, hverdict⟩ :=
          (harness.returnsOnly_runPass (some pass) url _ _ _ hpass).reportsAll
        refine ⟨.ran card verdict, ?_⟩
        rintro deployment havailable rfl hrun
        apply Round.rerun ⟨havailable, Bool.not_eq_true _ ▸ hempty⟩
        · rw [hpass, hrun]
          rw [narrowed_tests] at hverdict
          dsimp only at hverdict
          rw [hverdict]
          exact .ran card verdict e
        · rw [hround deployment havailable]
          unfold Deployment.rerunDeviation
          rw [if_neg hempty]
          unfold judged at hjudged
          dsimp only at hjudged ⊢
          rw [hrun]
          dsimp only
          cases heffect : pass.tookEffect card
              (pass.skipsMatching harness.beyond results).values with
          | error e =>
              rw [heffect] at hjudged
              cases hjudged
          | ok undone =>
              rw [heffect] at hjudged
              cases undone with
              | some message =>
                  cases hjudged
                  rfl
              | none =>
                  cases hjudged
                  rw [spliced_eq hverdict, narrowed_tests]

/-- A round that returns is a round of the abstract run, for what its pass came to. -/
theorem deviate_refines {request : RunRequest} {pass : Pass} {results after : List TestResult}
    {w t : World σ} (h : harness.deviate context request suite results pass w = .ok after t) :
    ∃ outcome : PassOutcome, ∀ deployment : Deployment,
      deployment.sutUrl = request.sutUrl →
      deployment.deviationUrl pass = request.deviationUrls.get? pass.envVar →
      (∀ tests, deployment.runPass pass tests = outcome) →
      harness.Round context suite deployment pass results w after t := by
  unfold Harness.deviate at h
  by_cases hskip : (request.sutUrl.isSome && (request.deviationUrls.get? pass.envVar).isNone) = true
  · rw [if_pos hskip] at h
    cases h
    refine ⟨.actsRunError, fun deployment hsut hurl _ => .idle fun hreruns => ?_⟩
    have havailable := hreruns.1
    rw [Bool.and_eq_true] at hskip
    rw [Deployment.available, hsut, hurl, ← Option.not_isSome, hskip.1, ← Option.not_isNone,
      hskip.2] at havailable
    cases havailable
  · rw [if_neg hskip] at h
    -- from here on both go through `_rerun_deviation`
    obtain ⟨outcome, hrerun⟩ := harness.rerunDeviation_refines h
    refine ⟨outcome, fun deployment hsut hurl hrun => hrerun deployment ?_ hurl hrun⟩
    unfold Deployment.available
    rw [hsut, hurl]
    rw [Bool.and_eq_true, not_and_or] at hskip
    rcases hskip with hskip | hskip
    · simp [Option.not_isSome_iff_eq_none.mp hskip]
    · rw [Option.isNone_iff_eq_none] at hskip
      simp [Option.isSome_iff_ne_none, hskip]

theorem inScope_eq_ok {transport : TransportBinding} {chosen graded : LoadedSuite}
    (h : inScope transport chosen = .ok graded) :
    graded.tests ≠ [] ∧
      graded = subset chosen fun loaded => loaded.test.appliesTo transport := by
  unfold inScope at h
  dsimp only at h
  split at h
  · cases h
  · rename_i hne
    cases h
    exact ⟨fun hnil => hne (List.isEmpty_iff.mpr hnil), rfl⟩

theorem selected_eq_ok {testIds : List String} {loaded chosen : LoadedSuite}
    (h : selected testIds loaded = .ok chosen) :
    (∀ id ∈ testIds, id ∈ loaded.tests.map LoadedTest.id) ∧ chosen.vars = loaded.vars ∧
      chosen.tests = loaded.tests.filter fun test =>
        testIds.isEmpty || decide (test.id ∈ testIds) := by
  unfold selected at h
  dsimp only at h
  split at h
  · rename_i hempty
    cases h
    rw [List.isEmpty_iff] at hempty
    subst hempty
    exact ⟨fun id hid => absurd hid List.not_mem_nil, rfl, by simp⟩
  · rename_i hne
    split at h
    · cases h
    · rename_i hmissing
      cases h
      rw [Bool.not_eq_true] at hne
      refine ⟨fun id hid => ?_, rfl, by simp [hne, subset]⟩
      rw [not_not, List.filter_eq_nil_iff] at hmissing
      have hfound := hmissing id hid
      rw [decide_eq_true_eq, not_not] at hfound
      obtain ⟨test, htest, rfl⟩ := List.mem_map.mp hfound
      exact List.mem_map_of_mem (List.mem_of_mem_filter htest)

/-- The tests a binding is graded on: what was asked for by name, as far as it applies. -/
def graded (request : RunRequest) (loaded : LoadedSuite) : List LoadedTest :=
  loaded.tests.filter fun test =>
    (request.testIds.isEmpty || decide (test.id ∈ request.testIds)) &&
      test.test.appliesTo request.transport

/-- The suite a run grades: what was asked for by name, as far as the binding is graded on
it, and never nothing. -/
theorem prepared_eq_ok {request : RunRequest} {declared : Option (List String)}
    (h : prepared request = .ok (suite, declared)) :
    ∃ loaded, request.suite = .ok loaded ∧ suite.vars = loaded.vars ∧ suite.tests ≠ [] ∧
      (∀ id ∈ request.testIds, id ∈ loaded.tests.map LoadedTest.id) ∧
      suite.tests = graded request loaded := by
  obtain ⟨-, -, h⟩ := bind_eq_ok_iff.mp h
  obtain ⟨loaded, hloaded, h⟩ := bind_eq_ok_iff.mp h
  obtain ⟨chosen, hchosen, h⟩ := bind_eq_ok_iff.mp h
  obtain ⟨graded, hgraded, h⟩ := bind_eq_ok_iff.mp h
  obtain ⟨prefixes, -, h⟩ := bind_eq_ok_iff.mp h
  obtain ⟨rfl, -⟩ := Prod.mk.inj (Except.ok.inj h)
  obtain ⟨hne, rfl⟩ := inScope_eq_ok hgraded
  obtain ⟨hids, hvars, htests⟩ := selected_eq_ok hchosen
  refine ⟨loaded, mapError_eq_ok_iff.mp hloaded, hvars, hne, hids, ?_⟩
  change chosen.tests.filter _ = loaded.tests.filter _
  rw [htests, List.filter_filter]
  apply List.filter_congr
  intro test _
  exact Bool.and_comm _ _

/-- A run that found nothing to grade has selected no test for its binding. -/
theorem graded_eq_nil {request : RunRequest} {message : String}
    (h : prepared request = .error (.noApplicableTests message)) :
    ∃ loaded, request.suite = .ok loaded ∧ graded request loaded = [] := by
  unfold prepared at h
  rcases except_bind_eq_error_iff.mp h with h | ⟨_, -, h⟩
  · unfold checkDeviations at h
    dsimp only at h
    split at h
    · cases h
    · split at h <;> cases h
  rcases except_bind_eq_error_iff.mp h with h | ⟨loaded, hloaded, h⟩
  · obtain ⟨e, -, he⟩ := mapError_eq_error_iff.mp h
    cases he
  rcases except_bind_eq_error_iff.mp h with h | ⟨chosen, hchosen, h⟩
  · unfold selected at h
    dsimp only at h
    split at h
    · cases h
    · split at h <;> cases h
  rcases except_bind_eq_error_iff.mp h with h | ⟨_, -, h⟩
  · refine ⟨loaded, mapError_eq_ok_iff.mp hloaded, ?_⟩
    obtain ⟨-, -, htests⟩ := selected_eq_ok hchosen
    unfold inScope at h
    dsimp only at h
    split at h
    · rename_i hempty
      rw [List.isEmpty_iff] at hempty
      rw [graded, ← hempty]
      change loaded.tests.filter _ = chosen.tests.filter _
      rw [htests, List.filter_filter]
      exact List.filter_congr fun test _ => Bool.and_comm _ _
    · cases h
  rcases except_bind_eq_error_iff.mp h with h | ⟨_, -, h⟩
  · unfold declared at h
    split at h
    · obtain ⟨e, -, he⟩ := mapError_eq_error_iff.mp h
      cases he
    · cases h
  · cases h

/-- A run, pass by pass: what the first pass of the harness returned, and then the rounds of
the deviations, which are those of an abstract run. -/
structure RunsPasses (request : RunRequest) (w : World σ) (result : ActsRun) (t : World σ)
    (first : List TestResult) (deployment : Deployment) : Prop where
  transport : result.transport = request.transport
  prepared : prepared request = .ok (result.suite, result.declaredBehaviors)
  sutUrl : deployment.sutUrl = request.sutUrl
  deviationUrl : ∀ pass, deployment.deviationUrl pass = request.deviationUrls.get? pass.envVar
  passes : ∃ v, harness.runPass (contextOf request result.declaredBehaviors) none result.suite
      request.sutUrl w = .ok (first, result.agentCard) v ∧
    harness.Rounds (contextOf request result.declaredBehaviors) result.suite deployment Pass.all
      first v result.results t

/-- A run that returns is an abstract run of the deviation passes. -/
theorem run_refines {request : RunRequest} {w t : World σ} {result : ActsRun}
    (h : harness.run request w = .ok result t) :
    ∃ first deployment, harness.RunsPasses request w result t first deployment := by
  obtain ⟨⟨suite, declared⟩, w₀, hlift, h⟩ := Effects.bind_eq_ok_iff.mp h
  obtain ⟨hprepared, rfl⟩ := Effects.lift_apply_eq_ok_iff.mp hlift
  obtain ⟨⟨first, card⟩, w₁, hfirst, h⟩ := Effects.bind_eq_ok_iff.mp h
  obtain ⟨results, w₂, hrounds, h⟩ := Effects.bind_eq_ok_iff.mp h
  cases h
  rw [Pass.all, List.foldlM_cons] at hrounds
  obtain ⟨middle, w₃, hreduced, hrounds⟩ := Effects.bind_eq_ok_iff.mp hrounds
  rw [List.foldlM_cons] at hrounds
  obtain ⟨last, w₄, hauth, hrounds⟩ := Effects.bind_eq_ok_iff.mp hrounds
  cases hrounds
  obtain ⟨reduced, hreduced⟩ := harness.deviate_refines hreduced
  obtain ⟨auth, hauth⟩ := harness.deviate_refines hauth
  let deployment : Deployment := {
    sutUrl := request.sutUrl
    deviationUrl := fun pass => request.deviationUrls.get? pass.envVar
    runPass := fun pass _ => if pass = .reduced then reduced else auth }
  refine ⟨first, deployment, rfl, hprepared, rfl, fun _ => rfl, w₁, hfirst, ?_⟩
  apply Rounds.round (hreduced deployment rfl rfl fun _ => rfl)
  apply Rounds.round (hauth deployment rfl rfl fun _ => rfl)
  exact .done _ _

variable {harness} in
theorem RunsPasses.reportsAll {request : RunRequest} {w t : World σ} {result : ActsRun}
    {first : List TestResult} {deployment : Deployment}
    (h : harness.RunsPasses request w result t first deployment) :
    ReportsAll result.suite first := by
  obtain ⟨v, hfirst, -⟩ := h.passes
  exact (harness.returnsOnly_runPass none request.sutUrl _ _ _ hfirst).reportsAll

variable {harness} in
theorem RunsPasses.applyDeviations {request : RunRequest} {w t : World σ} {result : ActsRun}
    {first : List TestResult} {deployment : Deployment}
    (h : harness.RunsPasses request w result t first deployment) :
    deployment.applyDeviations harness.beyond (result.suite.tests.map LoadedTest.test) first =
      .ok result.results := by
  obtain ⟨v, -, hrounds⟩ := h.passes
  exact hrounds.foldlM

theorem ids_map {results : List TestResult} {f : TestResult → TestResult}
    (hf : ∀ r, (f r).id = r.id) :
    (results.map f).map TestResult.id = results.map TestResult.id := by
  rw [List.map_map]
  exact List.map_congr_left fun r _ => hf r

/-- A round keeps the tests, and every verdict that is no skip. -/
theorem kept_of_deviate {deployment : Deployment} {tests : List Test} {pass : Pass}
    {beyond : Char → Bool} {results after : List TestResult}
    (h : deployment.deviate beyond tests pass results = .ok after) :
    ∃ f : TestResult → TestResult, after = results.map f ∧ (∀ r, (f r).id = r.id) ∧
      ((results.map TestResult.id).Nodup → ∀ r ∈ results, r.result ≠ .skip → f r = r) := by
  obtain ⟨f, hafter, hf⟩ := Deployment.deviate_spec beyond h
  refine ⟨f, hafter, fun r => ?_, fun hids r hr hskip => ?_⟩
  · rcases hf r with hreplaced | ⟨hsame, -⟩
    · exact (hreplaced.stamped beyond).1
    · rw [hsame]
  · rcases hf r with hreplaced | ⟨hsame, -⟩
    · exact absurd (Pass.skip_of_claims beyond pass (hreplaced.claims beyond hids hr)) hskip
    · exact hsame

theorem kept_of_applyDeviations {deployment : Deployment} {tests : List Test}
    {beyond : Char → Bool} {results final : List TestResult}
    (h : deployment.applyDeviations beyond tests results = .ok final) :
    ∃ f : TestResult → TestResult, final = results.map f ∧ (∀ r, (f r).id = r.id) ∧
      ((results.map TestResult.id).Nodup → ∀ r ∈ results, r.result ≠ .skip → f r = r) := by
  rw [Deployment.applyDeviations, Pass.all, List.foldlM_cons] at h
  obtain ⟨middle, hreduced, h⟩ := bind_eq_ok_iff.mp h
  rw [List.foldlM_cons] at h
  obtain ⟨last, hauth, h⟩ := bind_eq_ok_iff.mp h
  cases h
  obtain ⟨f, rfl, hfids, hfsame⟩ := kept_of_deviate hreduced
  obtain ⟨g, rfl, hgids, hgsame⟩ := kept_of_deviate hauth
  refine ⟨g ∘ f, List.map_map, fun r => (hgids (f r)).trans (hfids r), fun hids r hr hskip => ?_⟩
  have hfr := hfsame hids r hr hskip
  rw [Function.comp_apply, hfr]
  apply hgsame
  · rw [ids_map hfids]
    exact hids
  · rw [← hfr]
    exact List.mem_map_of_mem hr
  · exact hskip

/-- The suite of a run, as what was loaded decides it, and one result for each of its tests,
in load order. -/
structure GradedRun (request : RunRequest) (loaded : LoadedSuite) (result : ActsRun) : Prop where
  transport : result.transport = request.transport
  named : ∀ id ∈ request.testIds, id ∈ loaded.tests.map LoadedTest.id
  tests : result.suite.tests = graded request loaded
  nonempty : result.suite.tests ≠ []
  ids : result.results.map TestResult.id = result.suite.tests.map LoadedTest.id

theorem gradedRun_of_run (request : RunRequest) :
    Effects.ReturnsOnly (fun result : ActsRun =>
      ∃ loaded, request.suite = .ok loaded ∧ GradedRun request loaded result)
      (harness.run request) := by
  intro w result t h
  obtain ⟨first, deployment, hpasses⟩ := harness.run_refines h
  obtain ⟨loaded, hloaded, -, hne, hnamed, htests⟩ := prepared_eq_ok hpasses.prepared
  obtain ⟨f, hfinal, hfids, -⟩ := kept_of_applyDeviations hpasses.applyDeviations
  refine ⟨loaded, hloaded, hpasses.transport, hnamed, htests, hne, ?_⟩
  rw [hfinal, ids_map hfids, hpasses.reportsAll.ids]

end Harness

end A2aItk.Acts
