import A2aItk.Acts.BrokenExchanges
import A2aItk.Acts.Worlds

/-!
# The shape of a test's verdict

Which steps a test reports, where its outcome comes from, and that nothing of a test is
left for the next one but the world it ran in.
-/

namespace A2aItk.Acts

open Python Effects

namespace Runner

variable {σ : Type} (runner : Runner σ)

section Steps

/-- The steps run one after the other, each in the scope and the world its predecessors
left, and all of them pass. -/
inductive Passes : List Step → Scope → σ → List StepResult → Scope → σ → Prop
  | nil (scope : Scope) (s : σ) : Passes [] scope s [] scope s
  | cons {step : Step} {rest : List Step} {scope scope' scope'' : Scope} {s t u : σ}
      {result : StepResult} {results : List StepResult}
      (hrun : runner.runStep step.toStepFields scope s = .ok (result, scope') t)
      (hpass : result.result = .pass) (hrest : Passes rest scope' t results scope'' u) :
      Passes (step :: rest) scope s (result :: results) scope'' u

/-- A step does not pass, after all before it did. -/
inductive Stops : List Step → Scope → σ → List StepResult → StepResult → Prop
  | here {step : Step} {rest : List Step} {scope scope' : Scope} {s t : σ} {last : StepResult}
      (hrun : runner.runStep step.toStepFields scope s = .ok (last, scope') t)
      (hlast : last.result ≠ .pass) : Stops (step :: rest) scope s [last] last
  | later {step : Step} {rest : List Step} {scope scope' : Scope} {s t : σ}
      {result last : StepResult} {results : List StepResult}
      (hrun : runner.runStep step.toStepFields scope s = .ok (result, scope') t)
      (hpass : result.result = .pass) (hrest : Stops rest scope' t results last) :
      Stops (step :: rest) scope s (result :: results) last

variable {runner}

theorem answers_refl (runner : Runner σ) : runner.Answers 0 Eq where
  dispatch _ _ _ := .refl _
  dispatchRaw _ _ := .refl _
  openStreams _ _ _ := .refl _
  readWebhook _ _ _ := .refl _
  now := (Simulates.refl _).mono (by simp)
  pause _ := .refl _
  newUuid := .refl _

/-- A step is reported under its own id, and never as skipped. -/
theorem attributed_of_runStep {step : StepFields} {scope : Scope} {s t : σ}
    {result : StepResult × Scope} (h : runner.runStep step scope s = .ok result t) :
    result.1.id = step.id ∧ result.1.result ≠ .skip := by
  have hsame := (runner.answers_refl.runStep step scope) s s rfl
  rw [h] at hsame
  obtain ⟨a, b, u, v, ha, -, hab, -⟩ | ⟨e, u, v, he, -⟩ := hsame.cases
  · cases ha
    exact hab.2
  · cases he

/-- The steps of a test, from some that were run before. -/
theorem runSteps_eq_ok {steps : List Step} {scope scope' : Scope} {s t : σ}
    {done results : List StepResult} {stopped : Option StepResult}
    (h : runner.runSteps steps scope done s = .ok (results, stopped, scope') t) :
    ∃ own, results = done ++ own ∧
      ((stopped = none ∧ runner.Passes steps scope s own scope' t) ∨
        ∃ last, stopped = some last ∧ runner.Stops steps scope s own last) := by
  induction steps generalizing scope done s with
  | nil =>
      cases h
      exact ⟨[], by simp, .inl ⟨rfl, .nil _ _⟩⟩
  | cons step rest ih =>
      obtain ⟨⟨result, scope₁⟩, u, hrun, hrest⟩ := bind_eq_ok_iff.mp h
      by_cases hpass : result.result = .pass
      · simp only [hpass, if_true] at hrest
        obtain ⟨own, rfl, howns⟩ := ih hrest
        refine ⟨result :: own, by simp, ?_⟩
        rcases howns with ⟨hnone, hpasses⟩ | ⟨last, hsome, hstops⟩
        · exact .inl ⟨hnone, .cons hrun hpass hpasses⟩
        · exact .inr ⟨last, hsome, .later hrun hpass hstops⟩
      · simp only [hpass, if_false] at hrest
        cases hrest
        exact ⟨[result], rfl, .inr ⟨result, rfl, .here hrun hpass⟩⟩

namespace Passes

variable {steps : List Step} {scope scope' scope'' : Scope} {s t u : σ}
variable {results results' : List StepResult}

theorem ids (h : runner.Passes steps scope s results scope' t) :
    results.map StepResult.id = steps.map fun step => step.id := by
  induction h with
  | nil => rfl
  | cons hrun hpass hrest ih =>
      rw [List.map_cons, List.map_cons, ih, (attributed_of_runStep hrun).1]

theorem pass (h : runner.Passes steps scope s results scope' t) :
    ∀ result ∈ results, result.result = .pass := by
  induction h with
  | nil => simp
  | cons hrun hpass hrest ih => exact List.forall_mem_cons.mpr ⟨hpass, ih⟩

theorem deterministic (h : runner.Passes steps scope s results scope' t)
    (h' : runner.Passes steps scope s results' scope'' u) : scope' = scope'' ∧ t = u := by
  induction h generalizing results' with
  | nil =>
      cases h'
      exact ⟨rfl, rfl⟩
  | cons hrun hpass hrest ih =>
      cases h' with
      | cons hrun' hpass' hrest' =>
          cases hrun.symm.trans hrun'
          exact ih hrest'

end Passes

namespace Stops

variable {steps : List Step} {scope scope' : Scope} {s t : σ} {results : List StepResult}
variable {last : StepResult}

theorem ids (h : runner.Stops steps scope s results last) :
    results.map StepResult.id = (steps.take results.length).map fun step => step.id := by
  induction h with
  | here hrun hlast => exact congrArg (fun id => [id]) (attributed_of_runStep hrun).1
  | later hrun hpass hrest ih =>
      rw [List.map_cons, ih, (attributed_of_runStep hrun).1]
      rfl

theorem pass (h : runner.Stops steps scope s results last) :
    ∀ result ∈ results.dropLast, result.result = .pass := by
  induction h with
  | here => simp
  | later hrun hpass hrest ih =>
      rw [List.dropLast_cons_of_ne_nil]
      · exact List.forall_mem_cons.mpr ⟨hpass, ih⟩
      · cases hrest <;> simp

theorem getLast? (h : runner.Stops steps scope s results last) :
    results.getLast? = some last ∧ last.result ≠ .pass ∧ last.result ≠ .skip := by
  induction h with
  | here hrun hlast => exact ⟨rfl, hlast, (attributed_of_runStep hrun).2⟩
  | later hrun hpass hrest ih =>
      rw [List.getLast?_cons, ih.1]
      exact ⟨rfl, ih.2⟩

end Stops

end Steps

section Tests

variable {runner}

/-- No gate holds the test back. -/
def Released (runner : Runner σ) (test : TestFields) : Prop :=
  runner.gate.skipReason runner.py test = .ok none ∧ runner.behaviorGap test = none

/-- The world once the test has looked at the clock. -/
def begun (runner : Runner σ) (s : σ) : σ := (runner.clock s).2

/-- All steps of the test ran and passed, and this is what its own assertions came to. -/
def AllRan (runner : Runner σ) (test : Test) (vars : Dict String Value) (s : σ)
    (steps : List StepResult) (assertions : Option FailureDetail) : Prop :=
  ∃ scope t u, runner.Passes test.steps (runner.initialScope vars) (runner.begun s) steps scope t ∧
    runner.evaluateAssertions scope none (test.assertions.getD []) t = .ok assertions u

/-- The verdict on a test, from the steps it reports and the state it was started in to the
state it leaves. -/
structure TestShape (runner : Runner σ) (test : Test) (vars : Dict String Value) (s : σ)
    (result : TestResult) (s' : σ) : Prop where
  /-- The reported steps are the first of the test, and all but the last passed. -/
  reported : ∃ n, result.steps.map StepResult.id = (test.steps.take n).map fun step => step.id
  passed : ∀ step ∈ result.steps.dropLast, step.result = .pass
  pass_iff : result.result = .pass ↔
    runner.Released test.toTestFields ∧ runner.AllRan test vars s result.steps none
  /-- Only an assertion of the test itself fails. -/
  assertion : ∀ failure, runner.Released test.toTestFields →
    runner.AllRan test vars s result.steps (some failure) →
    result.result = .fail ∧ result.failure = some failure
  /-- A step did not pass: the last one reported. -/
  last : runner.Released test.toTestFields →
    (∀ assertions, ¬runner.AllRan test vars s result.steps assertions) →
    ∃ last, runner.Stops test.steps (runner.initialScope vars) (runner.begun s) result.steps last ∧
      result.steps.getLast? = some last ∧ result.result = last.result ∧
      result.failure = last.failure
  /-- A test that is skipped or held back reports no step, and has asked the world for
  nothing but the time. -/
  held : result.result = .skip ∨ ¬runner.Released test.toTestFields →
    result.steps = [] ∧ s' = runner.begun (runner.begun s)

namespace AllRan

variable {test : Test} {vars : Dict String Value} {s : σ} {steps : List StepResult}
variable {assertions assertions' : Option FailureDetail}

theorem unique (h : runner.AllRan test vars s steps assertions)
    (h' : runner.AllRan test vars s steps assertions') : assertions = assertions' := by
  obtain ⟨scope, t, u, hpasses, heval⟩ := h
  obtain ⟨scope', t', u', hpasses', heval'⟩ := h'
  obtain ⟨rfl, rfl⟩ := hpasses.deterministic hpasses'
  cases heval.symm.trans heval'
  rfl

theorem reported (h : runner.AllRan test vars s steps assertions) :
    ∃ n, steps.map StepResult.id = (test.steps.take n).map fun step => step.id := by
  obtain ⟨scope, t, u, hpasses, -⟩ := h
  refine ⟨test.steps.length, ?_⟩
  rw [List.take_length]
  exact hpasses.ids

theorem passed (h : runner.AllRan test vars s steps assertions) :
    ∀ step ∈ steps, step.result = .pass := by
  obtain ⟨scope, t, u, hpasses, -⟩ := h
  exact hpasses.pass

theorem not_stops (h : runner.AllRan test vars s steps assertions) {last : StepResult} :
    ¬runner.Stops test.steps (runner.initialScope vars) (runner.begun s) steps last := by
  intro hstops
  obtain ⟨hlast, hne, -⟩ := hstops.getLast?
  exact hne (h.passed last (List.mem_of_getLast? hlast))

end AllRan

theorem testResult_eq_ok {test : TestFields} {outcome : Outcome} {started : ℚ}
    {failure : Option FailureDetail} {steps : List StepResult} {s s' : σ} {result : TestResult}
    (h : runner.testResult test outcome started failure steps s = .ok result s') :
    result.result = outcome ∧ result.failure = failure ∧ result.steps = steps ∧
      s' = runner.begun s := by
  cases h
  exact ⟨rfl, rfl, rfl, rfl⟩

/-- How a test that nothing holds back went. -/
theorem runUngated_cases {test : Test} {vars : Dict String Value} {started : ℚ} {s s' : σ}
    {result : TestResult}
    (h : runner.runUngated test vars started (runner.begun s) = .ok result s') :
    (result.result = .pass ∧ runner.AllRan test vars s result.steps none) ∨
      (∃ failure, result.result = .fail ∧ result.failure = some failure ∧
        runner.AllRan test vars s result.steps (some failure)) ∨
      ∃ last, result.result = last.result ∧ result.failure = last.failure ∧
        runner.Stops test.steps (runner.initialScope vars) (runner.begun s) result.steps last := by
  obtain ⟨⟨steps, stopped, scope⟩, t, hsteps, hverdict⟩ := bind_eq_ok_iff.mp h
  obtain ⟨own, rfl, ⟨rfl, hpasses⟩ | ⟨last, rfl, hstops⟩⟩ := runSteps_eq_ok hsteps
  · obtain ⟨named, u, hnamed, hresult⟩ := bind_eq_ok_iff.mp hverdict
    cases named with
    | none =>
        obtain ⟨houtcome, -, hown, -⟩ := testResult_eq_ok hresult
        rw [hown]
        exact .inl ⟨houtcome, scope, t, u, hpasses, hnamed⟩
    | some failure =>
        obtain ⟨houtcome, hfailure, hown, -⟩ := testResult_eq_ok hresult
        rw [hown]
        exact .inr (.inl ⟨failure, houtcome, hfailure, scope, t, u, hpasses, hnamed⟩)
  · obtain ⟨houtcome, hfailure, hown, -⟩ := testResult_eq_ok hverdict
    rw [hown]
    exact .inr (.inr ⟨last, houtcome, hfailure, hstops⟩)

/-- A gate that gives a reason, or raises, holds the test back. -/
theorem not_released_of_gate {test : TestFields}
    (h : runner.gate.skipReason runner.py test ≠ .ok none) : ¬runner.Released test :=
  fun hreleased => h hreleased.1

theorem not_released_of_gap {test : TestFields} (h : runner.behaviorGap test ≠ none) :
    ¬runner.Released test :=
  fun hreleased => h hreleased.2

/-- How a test that returns went. -/
theorem runTest_cases {test : Test} {vars : Dict String Value} {s s' : σ} {result : TestResult}
    (h : runner.runTest test vars s = .ok result s') :
    (¬runner.Released test.toTestFields ∧ result.result ≠ .pass ∧ result.steps = [] ∧
        s' = runner.begun (runner.begun s)) ∨
      (runner.Released test.toTestFields ∧
        ((result.result = .pass ∧ runner.AllRan test vars s result.steps none) ∨
          (∃ failure, result.result = .fail ∧ result.failure = some failure ∧
            runner.AllRan test vars s result.steps (some failure)) ∨
          ∃ last, result.result = last.result ∧ result.failure = last.failure ∧
            runner.Stops test.steps (runner.initialScope vars) (runner.begun s) result.steps
              last)) := by
  obtain ⟨started, t, hnow, hverdict⟩ := bind_eq_ok_iff.mp h
  obtain rfl : t = runner.begun s := by
    cases hnow
    rfl
  cases hgate : runner.gate.skipReason runner.py test.toTestFields with
  | error e =>
      have hheld : ¬runner.Released test.toTestFields :=
        not_released_of_gate (by simp [hgate])
      rw [hgate] at hverdict
      cases e
      case runError message =>
        obtain ⟨houtcome, -, hsteps, hstate⟩ := testResult_eq_ok hverdict
        exact .inl ⟨hheld, by simp [houtcome], hsteps, hstate⟩
      all_goals cases hverdict
  | ok reason =>
      rw [hgate] at hverdict
      cases reason with
      | some reason =>
          have hheld : ¬runner.Released test.toTestFields :=
            not_released_of_gate (by simp [hgate])
          cases hverdict
          exact .inl ⟨hheld, by simp [TestFields.resultOf], rfl, rfl⟩
      | none =>
          cases hgap : runner.behaviorGap test.toTestFields with
          | some gap =>
              have hheld : ¬runner.Released test.toTestFields :=
                not_released_of_gap (by simp [hgap])
              simp only [hgap] at hverdict
              obtain ⟨houtcome, -, hsteps, hstate⟩ := testResult_eq_ok hverdict
              exact .inl ⟨hheld, by simp [houtcome], hsteps, hstate⟩
          | none =>
              simp only [hgap] at hverdict
              exact .inr ⟨⟨hgate, hgap⟩, runUngated_cases hverdict⟩

/-- The verdict of a test that returns has the documented shape. -/
theorem testShape_of_runTest {test : Test} {vars : Dict String Value} {s s' : σ}
    {result : TestResult} (h : runner.runTest test vars s = .ok result s') :
    runner.TestShape test vars s result s' := by
  rcases runTest_cases h with ⟨hheld, hpass, hsteps, hstate⟩ |
    ⟨hreleased, ⟨hpass, hran⟩ | ⟨failure, hfail, hfailure, hran⟩ |
      ⟨last, houtcome, hfailure, hstops⟩⟩
  · exact
      { reported := ⟨0, by rw [hsteps]; rfl⟩
        passed := by simp [hsteps]
        pass_iff := iff_of_false hpass fun hran => hheld hran.1
        assertion := fun _ hreleased => absurd hreleased hheld
        last := fun hreleased => absurd hreleased hheld
        held := fun _ => ⟨hsteps, hstate⟩ }
  · exact
      { reported := hran.reported
        passed := fun step hstep => hran.passed step (List.mem_of_mem_dropLast hstep)
        pass_iff := iff_of_true hpass ⟨hreleased, hran⟩
        assertion := fun failure _ hran' => absurd (hran.unique hran') (by simp)
        last := fun _ hnone => absurd hran (hnone none)
        held := by simp [hpass, hreleased] }
  · exact
      { reported := hran.reported
        passed := fun step hstep => hran.passed step (List.mem_of_mem_dropLast hstep)
        pass_iff := iff_of_false (by simp [hfail]) fun hran' =>
          absurd (hran.unique hran'.2) (by simp)
        assertion := by
          intro failure' _ hran'
          obtain rfl := Option.some.inj (hran.unique hran')
          exact ⟨hfail, hfailure⟩
        last := fun _ hnone => absurd hran (hnone (some failure))
        held := by simp [hfail, hreleased] }
  · obtain ⟨hlast, hne, hskip⟩ := hstops.getLast?
    exact
      { reported := ⟨_, hstops.ids⟩
        passed := hstops.pass
        pass_iff := iff_of_false (by rwa [houtcome]) fun hran => hran.2.not_stops hstops
        assertion := fun failure' _ hran => absurd hstops hran.not_stops
        last := fun _ _ => ⟨last, hstops, hlast, houtcome, hfailure⟩
        held := by simp [houtcome, hskip, hreleased] }

end Tests

section Suites

variable {runner}

theorem runSuite_cons_eq_ok {vars : Dict String Value} {first : Test} {rest : List Test}
    {s t : σ} {results : List TestResult} :
    runner.runSuite vars (first :: rest) s = .ok results t ↔
      ∃ result u others, runner.runTest first (vars.update runner.vars.entries) s = .ok result u ∧
        runner.runSuite vars rest u = .ok others t ∧ results = result :: others := by
  rw [runSuite, List.mapM_cons, Effects.bind_eq_ok_iff]
  apply exists_congr
  intro result
  apply exists_congr
  intro u
  rw [Effects.bind_eq_ok_iff]
  constructor
  · rintro ⟨hfirst, others, v, hrest, hresults⟩
    cases hresults
    exact ⟨others, hfirst, hrest, rfl⟩
  · rintro ⟨others, hfirst, hrest, rfl⟩
    exact ⟨hfirst, others, t, hrest, rfl⟩

/-- A suite's results are those of its tests, each run in the world the tests before it left. -/
theorem runSuite_split {vars : Dict String Value} {before after : List Test} {test : Test}
    {s t : σ} {results : List TestResult}
    (h : runner.runSuite vars (before ++ test :: after) s = .ok results t) :
    ∃ earlier u result v, runner.runSuite vars before s = .ok earlier u ∧
      runner.runTest test (vars.update runner.vars.entries) u = .ok result v ∧
      results[before.length]? = some result := by
  induction before generalizing s results with
  | nil =>
      obtain ⟨result, u, others, hfirst, -, rfl⟩ := runSuite_cons_eq_ok.mp h
      exact ⟨[], s, result, u, rfl, hfirst, rfl⟩
  | cons first rest ih =>
      obtain ⟨result, u, others, hfirst, hrest, rfl⟩ := runSuite_cons_eq_ok.mp h
      obtain ⟨earlier, v, own, w, hearlier, hown, hindex⟩ := ih hrest
      exact ⟨result :: earlier, v, own, w,
        runSuite_cons_eq_ok.mpr ⟨result, u, earlier, hfirst, hearlier, rfl⟩, hown, hindex⟩

/-- A test has the same result in two suites if it is started in worlds that answer alike,
whatever ran before it. -/
theorem result_eq_of_answers {δ : ℚ} {R : σ → σ → Prop} (hR : runner.Answers δ R)
    {vars : Dict String Value} {test : Test} {before before' after after' : List Test}
    {s s' t t' u u' : σ} {results results' earlier earlier' : List TestResult}
    (h : runner.runSuite vars (before ++ test :: after) s = .ok results t)
    (h' : runner.runSuite vars (before' ++ test :: after') s' = .ok results' t')
    (hstart : runner.runSuite vars before s = .ok earlier u)
    (hstart' : runner.runSuite vars before' s' = .ok earlier' u') (halike : R u u') :
    results[before.length]? = results'[before'.length]? := by
  obtain ⟨_, _, result, v, hearlier, hown, hindex⟩ := runSuite_split h
  obtain ⟨_, _, result', v', hearlier', hown', hindex'⟩ := runSuite_split h'
  cases hstart.symm.trans hearlier
  cases hstart'.symm.trans hearlier'
  have hsame := hR.blind_runTest test (vars.update runner.vars.entries) u u' halike
  rw [hown, hown'] at hsame
  cases hsame with
  | ok hvalue hstate => rw [hindex, hindex', hvalue]

/-- The verdict on a test has the documented shape, and does not depend on the tests that
ran before it. -/
theorem verdicts_are_shaped (runner : Runner σ) (vars : Dict String Value) :
    (∀ (test : Test) (s s' : σ) (result : TestResult),
      runner.runTest test vars s = .ok result s' → runner.TestShape test vars s result s') ∧
    (runner.initialScope vars).captures = Dict.empty ∧
    ∀ (δ : ℚ) (R : σ → σ → Prop), runner.Answers δ R →
      ∀ (test : Test) (before before' after after' : List Test) (s s' t t' u u' : σ)
        (results results' earlier earlier' : List TestResult),
        runner.runSuite vars (before ++ test :: after) s = .ok results t →
        runner.runSuite vars (before' ++ test :: after') s' = .ok results' t' →
        runner.runSuite vars before s = .ok earlier u →
        runner.runSuite vars before' s' = .ok earlier' u' → R u u' →
        results[before.length]? = results'[before'.length]? := by
  refine ⟨fun test s s' result h => testShape_of_runTest h, rfl, ?_⟩
  intro δ R hR test before before' after after' s s' t t' u u' results results' earlier earlier'
    h h' hstart hstart' halike
  exact result_eq_of_answers hR h h' hstart hstart' halike

end Suites

section Examples

/-- A test for another binding than the runner speaks. -/
def grpcTest : Test where
  id := "CORE-SUB-001"
  name := "a task can be subscribed to"
  level := .must
  transport := some [.grpc]
  steps := [openSubscription]
  idNonempty := by decide
  stepsNonempty := by simp
  stepIdsAreUnique := by simp
  rawOnlyNamesTransport := by simp
  declaresRunnerFeatures := by
    intro step hstep requirement huses
    obtain rfl := List.mem_singleton.mp hstep
    cases requirement <;>
      simp [TestFields.Uses, openSubscription, StepFields.kind, StepFields.plans] at huses

/-- A runner whose agent answers every call with 200. Its world is the seconds that have
gone by, one at each look at the clock, and the calls that were made. -/
def countingRunner : Runner (ℕ × ℕ) where
  py := .plain
  binding := .jsonrpc
  dispatch _ _ _ s := .ok { status := 200 } (s.1, s.2 + 1)
  dispatchRaw _ _ s := .ok { status := 200 } (s.1, s.2 + 1)
  openStreams _ _ _ s := (fun _ => { events := [], ending := .closed }, s)
  readWebhook := none
  clock s := (s.1, (s.1 + 1, s.2))
  sleep seconds s := (s.1 + seconds.ceil.toNat, s.2)
  newUuid s := ("0", s)
  environ _ := none
  vars := Dict.empty

/-- It is answered alike at any time and after any number of calls. -/
theorem countingRunner_answers (k : ℕ) :
    countingRunner.Answers k fun a b => b.1 = a.1 + k where
  dispatch _ _ _ _ _ hab := .ok rfl hab
  dispatchRaw _ _ _ _ hab := .ok rfl hab
  openStreams _ _ _ := .update fun _ _ hab => ⟨rfl, hab⟩
  readWebhook _ hread := by cases hread
  now := by
    apply Simulates.update
    intro a b hab
    have hlater : (b.1 : ℚ) = a.1 + k := by exact_mod_cast hab
    refine ⟨hlater, ?_⟩
    change b.1 + 1 = a.1 + 1 + k
    omega
  pause seconds := by
    apply Simulates.update
    intro a b hab
    refine ⟨rfl, ?_⟩
    change b.1 + seconds.ceil.toNat = a.1 + seconds.ceil.toNat + k
    omega
  newUuid := .update fun _ _ hab => ⟨rfl, hab⟩

/-- A step that asks for a task and expects a status. -/
def getTaskStep (id : String) (code : ℤ) (hid : id ≠ "") : Step where
  id := id
  operation := some .getTask
  expect := some { status := .int code }
  idNonempty := hid
  exactlyOneKind := by simp [StepFields.kindsGiven]
  fieldsMatchTheKind := by
    constructor <;> simp [StepFields.kind, StepFields.plans]

/-- A task is found, and then has to be gone. -/
def goneTask : Test where
  id := "CORE-GET-001"
  name := "a task is found and then gone"
  level := .must
  steps := [getTaskStep "found" 200 (by decide), getTaskStep "gone" 404 (by decide)]
  idNonempty := by decide
  stepsNonempty := by simp
  stepIdsAreUnique := by simp [getTaskStep]
  rawOnlyNamesTransport := by simp [getTaskStep, StepFields.kind]
  declaresRunnerFeatures := by
    intro step hstep requirement huses
    simp only [List.mem_cons, List.not_mem_nil, or_false] at hstep
    rcases hstep with rfl | rfl <;> cases requirement <;>
      simp [TestFields.Uses, getTaskStep, StepFields.kind, StepFields.plans] at huses

/-- The second step fails the test, with another test before it or without. -/
theorem goneTask_is_shaped :
    (∃ result s', countingRunner.runTest goneTask Dict.empty (0, 0) = .ok result s' ∧
      result.steps.map StepResult.result = [.pass, .fail] ∧ result.result = .fail ∧
      countingRunner.TestShape goneTask Dict.empty (0, 0) result s') ∧
    ∃ results results' t t',
      countingRunner.runSuite Dict.empty [grpcTest, goneTask] (0, 0) = .ok results t ∧
      countingRunner.runSuite Dict.empty [goneTask, goneTask, grpcTest] (7, 3) = .ok results' t' ∧
      results[1]? ≠ none ∧ results[1]? = results'[1]? := by
  obtain ⟨hshape, -, halike⟩ := verdicts_are_shaped countingRunner Dict.empty
  constructor
  · exact ⟨_, _, rfl, rfl, rfl, hshape goneTask (0, 0) _ _ rfl⟩
  · refine ⟨_, _, _, _, rfl, rfl, by simp, ?_⟩
    exact halike 11 _ (countingRunner_answers 11) goneTask [grpcTest] [goneTask] [] [grpcTest]
      (0, 0) (7, 3) _ _ _ _ _ _ _ _ rfl rfl rfl rfl rfl

end Examples

end Runner

end A2aItk.Acts
