import A2aItk.Acts.BrokenExchanges
import A2aItk.Acts.StreamBounds

/-!
# Steps that pass

What a step that passes has checked, one lemma for each way a step is judged.
-/

namespace A2aItk.Acts

open Python

namespace Runner

variable {σ : Type} {runner : Runner σ} {step : StepFields} {scope : Scope} {started : ℚ}
  {s t : σ} {r : StepResult × Scope}

section Results

/-- A result with a message or a failure of its own is no pass. -/
theorem stepResult_result {outcome : Outcome} {failure : Option FailureDetail}
    {attempts checks : ℕ}
    (h : runner.stepResult step scope outcome started failure attempts checks s = .ok r t) :
    r.1.result = outcome ∧ r.2 = scope := by
  rw [stepResult_apply] at h
  cases h
  exact ⟨rfl, rfl⟩

theorem stepMessage_result {outcome : Outcome} {message : String} {attempts : ℕ}
    (h : runner.stepMessage step scope outcome started message attempts s = .ok r t) :
    r.1.result = outcome ∧ r.2 = scope :=
  stepResult_result h

/-- Where no assertion fails, each of them succeeded. -/
theorem succeeds_of_evaluateAssertions {stepId : Option String}
    {assertions : List NamedAssertion}
    (h : runner.evaluateAssertions scope stepId assertions s = .ok none t) :
    ∀ assertion ∈ assertions, Succeeds (runner.namedCheck scope assertion) := by
  induction assertions generalizing s with
  | nil => simp
  | cons assertion rest ih =>
      rw [evaluateAssertions] at h
      obtain ⟨attempted, u, hsource, h⟩ := Effects.bind_eq_ok_iff.mp h
      cases attempted with
      | error e => cases e <;> cases h
      | ok source =>
          obtain ⟨resolved, v, hresolved, h⟩ := Effects.bind_eq_ok_iff.mp h
          obtain ⟨outcome, w, houtcome, h⟩ := Effects.bind_eq_ok_iff.mp h
          cases hfailures : outcome.failures with
          | cons failure others =>
              rw [hfailures] at h
              cases h
          | nil =>
              rw [hfailures] at h
              have hfirst : Succeeds (runner.namedCheck scope assertion) := by
                refine ⟨s, outcome, w, ?_, hfailures⟩
                rw [namedCheck,
                  Effects.bind_apply_of_ok (Effects.attempt_apply_eq_ok_iff.mp hsource),
                  Effects.bind_apply_of_ok hresolved]
                exact houtcome
              exact List.forall_mem_cons.mpr ⟨hfirst, ih h⟩

/-- A step that passes at its end was evaluated without a failure, and its assertions
hold. -/
theorem finish_pass {result : AssertionResult} {attempts : ℕ}
    (h : runner.finish step scope result started attempts s = .ok r t)
    (hpass : r.1.result = .pass) (transcript : Transcript) :
    result.failures = [] ∧ r.2 = scope ∧ runner.Holds step scope transcript .assertions := by
  unfold finish at h
  cases hfailures : result.failures with
  | cons failure others =>
      rw [hfailures] at h
      exact absurd (hpass.symm.trans (stepResult_result h).1) (by simp)
  | nil =>
      rw [hfailures] at h
      obtain ⟨named, u, hnamed, h⟩ := Effects.bind_eq_ok_iff.mp h
      cases named with
      | some failure => exact absurd (hpass.symm.trans (stepResult_result h).1) (by simp)
      | none => exact ⟨rfl, (stepResult_result h).2, succeeds_of_evaluateAssertions hnamed⟩

end Results

section Captures

/-- A capture that is complete has read every path. -/
theorem readPath_of_capture {stepId : String} {response : Value} {scope scope' : Scope}
    {paths : List (String × String)}
    (h : scope.capture stepId response paths = (scope', .ok ())) :
    ∀ entry ∈ paths, ∃ value, readPath response entry.2 = .ok (some value) := by
  induction paths generalizing scope with
  | nil => simp
  | cons entry rest ih =>
      obtain ⟨name, path⟩ := entry
      rw [Scope.capture] at h
      split at h
      · cases h
      · cases h
      · next value hvalue => exact List.forall_mem_cons.mpr ⟨⟨value, hvalue⟩, ih h⟩

theorem captureStep_none {response : Value} {scope' : Scope}
    (h : captureStep step scope response s = .ok (scope', none) t) :
    ∀ entry ∈ step.capture.getD [], ∃ value, readPath response entry.2 = .ok (some value) := by
  unfold captureStep at h
  cases hcapture : scope.capture step.id response (step.capture.getD []) with
  | mk captured outcome =>
      rw [hcapture] at h
      cases outcome with
      | ok => exact readPath_of_capture hcapture
      | error e => cases e <;> cases h

end Captures

section Replies

variable {response : WireResponse} {attempts : ℕ}

/-- The status and the headers are checked one after the other, where they are given. -/
theorem evaluateStatusAndHeaders_eq (block : ExpectBlock) :
    runner.evaluateStatusAndHeaders block response scope =
      (if block.status.isNull then pure .pass
        else runner.statusCheck scope block.status response.status) >>= fun status =>
      (block.headers.elim (pure .pass) fun trees => runner.headersCheck scope trees response) >>=
      fun headers => pure (status + headers) := by
  rw [evaluateStatusAndHeaders]
  by_cases hstatus : block.status.isNull = true
  · cases hheaders : block.headers with
    | none => simp [hstatus]
    | some trees => simp [hstatus, headersCheck]
  · cases hheaders : block.headers with
    | none => simp [hstatus, statusCheck]
    | some trees => simp [hstatus, statusCheck, headersCheck]

/-- A status and headers without a failure hold of the reply. -/
theorem holds_of_statusAndHeaders {block : ExpectBlock} {result : AssertionResult}
    (hblock : step.expect = some block)
    (h : runner.evaluateStatusAndHeaders block response scope s = .ok result t)
    (hclean : result.failures = []) :
    (step.Declares .status → runner.Holds step scope (.reply response) .status) ∧
      runner.Holds step scope (.reply response) .headers := by
  rw [evaluateStatusAndHeaders_eq] at h
  obtain ⟨status, u, hstatus, h⟩ := Effects.bind_eq_ok_iff.mp h
  obtain ⟨headers, v, hheaders, h⟩ := Effects.bind_eq_ok_iff.mp h
  cases h
  obtain ⟨hstatusClean, hheadersClean⟩ := List.append_eq_nil_iff.mp hclean
  constructor
  · rintro ⟨given, hgiven, hdeclared⟩ expect hexpect status hmem
    obtain rfl : block = given := by simpa [hblock] using hgiven
    obtain rfl : block = expect := by simpa [hblock] using hexpect
    obtain rfl : status = some response.status := List.mem_singleton.mp hmem
    rw [hdeclared] at hstatus
    exact ⟨response.status, rfl, s, _, u, hstatus, hstatusClean⟩
  · intro expect hexpect trees htrees
    obtain rfl : block = expect := by simpa [hblock] using hexpect
    rw [Option.mem_def.mp htrees] at hheaders
    exact ⟨response, rfl, u, _, _, hheaders, hheadersClean⟩

/-- A body that was evaluated without a failure holds of the reply. -/
theorem holds_of_body {block : ExpectBlock} {trees : Fields} {result : AssertionResult}
    (hblock : step.expect = some block) (hbody : block.body = some trees)
    (h : runner.bodyCheck scope trees response.payload "body" s = .ok result t)
    (hclean : result.failures = []) : runner.Holds step scope (.reply response) .body := by
  intro expect hexpect trees' htrees
  obtain rfl : block = expect := by simpa [hblock] using hexpect
  obtain rfl : trees = trees' := by simpa [hbody] using htrees
  exact ⟨response, rfl, s, result, t, h, hclean⟩

/-- An `expect` block is refused for its body, or checked in its order. -/
theorem evaluateExpected_cases {block : ExpectBlock} {outcome : AssertionResult ⊕ AssertionResult}
    (h : runner.evaluateExpected step block response scope s = .ok outcome t) :
    (∃ message expected actual, outcome = .inl (failed message expected actual)) ∨
      ∃ outer u, runner.evaluateStatusAndHeaders block response scope s = .ok outer u ∧
        ((block.body = none ∧ outcome = .inr outer) ∨
          ∃ trees inner, block.body = some trees ∧ outcome = .inr (outer + inner) ∧
            runner.bodyCheck scope trees response.payload "body" u = .ok inner t) := by
  rw [evaluateExpected] at h
  obtain ⟨outer, u, houter, h⟩ := Effects.bind_eq_ok_iff.mp h
  have hchecked : ∀ {trees : Fields}, block.body = some trees →
      (runner.bodyCheck scope trees response.payload "body" >>= fun inner =>
        pure (.inr (outer + inner))) u = .ok outcome t →
      ∃ trees inner, block.body = some trees ∧ outcome = .inr (outer + inner) ∧
        runner.bodyCheck scope trees response.payload "body" u = .ok inner t := by
    intro trees hbody hrun
    obtain ⟨inner, v, hinner, hrun⟩ := Effects.bind_eq_ok_iff.mp hrun
    cases hrun
    exact ⟨trees, inner, hbody, rfl, hinner⟩
  cases hbody : block.body with
  | none =>
      rw [hbody] at h
      cases h
      exact .inr ⟨outer, _, houter, .inl ⟨rfl, rfl⟩⟩
  | some trees =>
      rw [← hbody]
      rw [hbody] at h
      cases herror : response.error with
      | none =>
          refine .inr ⟨outer, u, houter, .inr (hchecked hbody ?_)⟩
          simpa [bodyCheck, herror] using h
      | some error =>
          simp only [herror] at h
          split at h
          · refine .inr ⟨outer, u, houter, .inr (hchecked hbody ?_)⟩
            simpa [bodyCheck] using h
          · cases h
            exact .inl ⟨_, _, _, rfl⟩

/-- An `expect` block that is judged without a failure holds of the reply. -/
theorem holds_of_evaluateExpected {block : ExpectBlock} {result : AssertionResult}
    (hblock : step.expect = some block)
    (h : runner.evaluateExpected step block response scope s = .ok (.inr result) t)
    (hclean : result.failures = []) :
    (step.Declares .status → runner.Holds step scope (.reply response) .status) ∧
      runner.Holds step scope (.reply response) .headers ∧
      runner.Holds step scope (.reply response) .body := by
  rcases evaluateExpected_cases h with ⟨_, _, _, hrefused⟩ | ⟨outer, u, houter, hrest⟩
  · cases hrefused
  rcases hrest with ⟨hbody, houtcome⟩ | ⟨trees, inner, hbody, houtcome, hinner⟩
  · cases houtcome
    have hshared := holds_of_statusAndHeaders hblock houter hclean
    refine ⟨hshared.1, hshared.2, ?_⟩
    intro expect hexpect trees htrees
    obtain rfl : block = expect := by simpa [hblock] using hexpect
    simp [hbody] at htrees
  · cases houtcome
    obtain ⟨houterClean, hinnerClean⟩ := List.append_eq_nil_iff.mp hclean
    have hshared := holds_of_statusAndHeaders hblock houter houterClean
    exact ⟨hshared.1, hshared.2, holds_of_body hblock hbody hinner hinnerClean⟩

/-- The blocks a reply is judged on. -/
structure ReplyHolds (runner : Runner σ) (step : StepFields) (scope : Scope)
    (response : WireResponse) : Prop where
  status : step.Declares .status → runner.Holds step scope (.reply response) .status
  headers : runner.Holds step scope (.reply response) .headers
  body : runner.Holds step scope (.reply response) .body
  error : runner.Holds step scope (.reply response) .error

theorem failures_explainUnnamed {result : AssertionResult} {error : WireError}
    (h : (explainUnnamed runner.py result error).failures = []) : result.failures = [] := by
  rw [explainUnnamed] at h
  cases hhint : error.unnamedHint with
  | none =>
      rw [hhint] at h
      exact h
  | some hint =>
      rw [hhint] at h
      exact List.map_eq_nil_iff.mp h

/-- An expected error that is judged without a failure holds of the reply. -/
theorem holds_of_expectedError {expected : ExpectError} {error : WireError}
    {result : AssertionResult} (hexpected : step.expectError = some expected)
    (herror : response.error = some error)
    (h : runner.evaluateExpectedError expected error scope s = .ok result t)
    (hclean : result.failures = []) : runner.Holds step scope (.reply response) .error := by
  rw [evaluateExpectedError] at h
  obtain ⟨resolved, u, hresolved, h⟩ := Effects.bind_eq_ok_iff.mp h
  obtain ⟨judged, v, hjudged, h⟩ := Effects.bind_eq_ok_iff.mp h
  cases h
  intro given hgiven
  obtain rfl : expected = given := by simpa [hexpected] using hgiven
  refine ⟨error.observed, ?_, s, judged, t, ?_, failures_explainUnnamed hclean⟩
  · simp [Transcript.observed?, herror]
  · rw [errorCheck, Effects.bind_apply_of_ok hresolved]
    exact hjudged

theorem holds_error_of_none (hexpected : step.expectError = none) (transcript : Transcript) :
    runner.Holds step scope transcript .error := by
  intro expected hgiven
  simp [hexpected] at hgiven

theorem holds_expect_of_none (runner : Runner σ) (scope : Scope) (hexpect : step.expect = none)
    (transcript : Transcript) :
    runner.Holds step scope transcript .status ∧ runner.Holds step scope transcript .headers ∧
      runner.Holds step scope transcript .body := by
  refine ⟨?_, ?_, ?_⟩ <;>
    · intro expect hgiven
      simp [hexpect] at hgiven

/-- `_evaluate_outcome`, once the expected error is judged. -/
def outcomeAfter (runner : Runner σ) (step : StepFields) (response : WireResponse)
    (scope : Scope) (named : AssertionResult) : EStateM Exception σ AssertionResult :=
  match step.expect with
  | none => pure named
  | some block => do
      match ← runner.evaluateExpected step block response scope with
      | .inl refused => pure refused
      | .inr result => pure (named + result)

theorem holds_of_outcomeAfter {named result : AssertionResult}
    (h : runner.outcomeAfter step response scope named s = .ok result t)
    (hclean : result.failures = []) :
    named.failures = [] ∧
      (step.Declares .status → runner.Holds step scope (.reply response) .status) ∧
      runner.Holds step scope (.reply response) .headers ∧
      runner.Holds step scope (.reply response) .body := by
  rw [outcomeAfter] at h
  cases hexpect : step.expect with
  | none =>
      rw [hexpect] at h
      cases h
      have hnothing := holds_expect_of_none runner scope hexpect (.reply response)
      exact ⟨hclean, fun _ => hnothing.1, hnothing.2⟩
  | some block =>
      rw [hexpect] at h
      obtain ⟨outcome, u, houtcome, h⟩ := Effects.bind_eq_ok_iff.mp h
      cases outcome with
      | inl refused =>
          cases h
          rcases evaluateExpected_cases houtcome with ⟨_, _, _, hrefused⟩ | ⟨_, _, _, hrest⟩
          · cases hrefused
            exact absurd hclean (List.cons_ne_nil _ _)
          · rcases hrest with ⟨-, hrest⟩ | ⟨_, _, -, hrest, -⟩ <;> cases hrest
      | inr judged =>
          cases h
          obtain ⟨hnamed, hjudged⟩ := List.append_eq_nil_iff.mp hclean
          exact ⟨hnamed, holds_of_evaluateExpected hexpect houtcome hjudged⟩

/-- A reply that is judged without a failure satisfies every block it is judged on. -/
theorem replyHolds_of_evaluateOutcome {result : AssertionResult}
    (h : runner.evaluateOutcome step response scope s = .ok result t)
    (hclean : result.failures = []) : ReplyHolds runner step scope response := by
  have hafter : ∀ {named : AssertionResult} {u : σ},
      runner.outcomeAfter step response scope named u = .ok result t →
      runner.Holds step scope (.reply response) .error →
      ReplyHolds runner step scope response := by
    intro named u hrest herror
    obtain ⟨-, hstatus, hheaders, hbody⟩ := holds_of_outcomeAfter hrest hclean
    exact ⟨hstatus, hheaders, hbody, herror⟩
  cases hexpected : step.expectError with
  | none =>
      have hrest : runner.outcomeAfter step response scope .pass s = .ok result t := by
        simp only [evaluateOutcome, hexpected] at h
        exact h
      exact hafter hrest (holds_error_of_none hexpected _)
  | some expected =>
      cases herror : response.error with
      | none =>
          simp only [evaluateOutcome, hexpected, herror] at h
          cases h
          exact absurd hclean (List.cons_ne_nil _ _)
      | some error =>
          simp only [evaluateOutcome, hexpected, herror] at h
          obtain ⟨named, u, hnamed, hrest⟩ := Effects.bind_eq_ok_iff.mp h
          refine hafter hrest ?_
          exact holds_of_expectedError hexpected herror hnamed
            (holds_of_outcomeAfter hrest hclean).1

/-- A reply a step passes on satisfies what the step declares of it. -/
theorem judgeReply_pass {attempts : ℕ}
    (h : runner.judgeReply step scope started response attempts s = .ok r t)
    (hpass : r.1.result = .pass) :
    ReplyHolds runner step r.2 response ∧
      runner.Holds step r.2 (.reply response) .assertions ∧
      runner.Holds step r.2 (.reply response) .capture := by
  rw [judgeReply] at h
  obtain ⟨⟨captured, missed⟩, u, hcapture, h⟩ := Effects.bind_eq_ok_iff.mp h
  cases missed with
  | some missed => exact absurd (hpass.symm.trans (stepMessage_result h).1) (by simp)
  | none =>
      obtain ⟨result, v, hresult, h⟩ := Effects.bind_eq_ok_iff.mp h
      obtain ⟨hclean, hscope, hnamed⟩ := finish_pass h hpass (.reply response)
      rw [hscope]
      refine ⟨replyHolds_of_evaluateOutcome hresult hclean, hnamed, ?_⟩
      intro entry hentry
      exact ⟨response.payload, rfl, captureStep_none hcapture entry hentry⟩

end Replies

section Streams

/-- What is asserted of every stream of the step. -/
def sharedCheck (runner : Runner σ) (step : StepFields) (one : Collected) :
    Except Exception AssertionResult :=
  match step.expectStream with
  | some block => evaluateStream runner.py block.toStreamAssertions one.events one.timedOut
  | none =>
      pure (if step.expectError.isSome then
        failed
          s!"expected an error, but the stream opened and produced {one.events.length} event(s)"
          (.str "an error") (.str s!"{one.events.length} event(s)")
        else .pass)

/-- What the plan of a stream adds. -/
def planCheck (runner : Runner σ) (plan : Option StreamPlan) (one : Collected) :
    Except Exception AssertionResult :=
  plan.elim (pure .pass) fun p => evaluateStream runner.py p.toStreamAssertions one.events false

/-- A stream is checked for the step, for its plan and for its status. -/
theorem evaluateCollected_eq (plan : Option StreamPlan) (one : Collected) :
    runner.evaluateCollected step scope plan one =
      Effects.lift (sharedCheck runner step one) >>= fun shared =>
      Effects.lift (planCheck runner plan one) >>= fun own =>
      runner.evaluateStreamStatus step scope one.status one.events.length >>= fun status =>
      pure (shared + own + status) := by
  rw [evaluateCollected, sharedCheck, planCheck]
  cases step.expectStream with
  | none => cases plan <;> rfl
  | some block => cases plan <;> rfl

/-- What one stream of a step meets. -/
structure CollectedHolds (runner : Runner σ) (step : StepFields) (scope : Scope)
    (plan : Option StreamPlan) (one : Collected) : Prop where
  stream : ∀ block ∈ step.expectStream, runner.StreamHolds block plan one
  completed : step.expectStream ≠ none → one.timedOut = false
  noError : step.expectStream = none → step.expectError = none
  status : ∀ expect ∈ step.expect, expect.status.isNull = false →
    ∃ code ∈ one.status, Succeeds (runner.statusCheck scope expect.status code)

theorem clean_planCheck {plan : Option StreamPlan} {one : Collected}
    (h : Clean (planCheck runner plan one)) : ∀ p ∈ plan,
      Clean (evaluateStream runner.py p.toStreamAssertions one.events false) := by
  intro p hp
  rw [Option.mem_def.mp hp] at h
  exact h

theorem status_of_evaluateStreamStatus {status : Option ℤ} {count : ℕ} {result : AssertionResult}
    (h : runner.evaluateStreamStatus step scope status count s = .ok result t)
    (hclean : result.failures = []) : ∀ expect ∈ step.expect, expect.status.isNull = false →
      ∃ code ∈ status, Succeeds (runner.statusCheck scope expect.status code) := by
  intro expect hexpect hgiven
  rw [evaluateStreamStatus, Option.mem_def.mp hexpect] at h
  simp only [hgiven] at h
  obtain ⟨tree, u, htree, h⟩ := Effects.bind_eq_ok_iff.mp h
  cases status with
  | none =>
      cases h
      exact absurd hclean (List.cons_ne_nil _ _)
  | some code =>
      refine ⟨code, rfl, s, result, t, ?_, hclean⟩
      rw [statusCheck, Effects.bind_apply_of_ok htree]
      exact h

/-- A stream that is judged without a failure meets what the step declares of it. -/
theorem collectedHolds_of_evaluateCollected {plan : Option StreamPlan} {one : Collected}
    {result : AssertionResult}
    (h : runner.evaluateCollected step scope plan one s = .ok result t)
    (hclean : result.failures = []) : CollectedHolds runner step scope plan one := by
  rw [evaluateCollected_eq] at h
  obtain ⟨shared, u, hshared, h⟩ := Effects.bind_eq_ok_iff.mp h
  obtain ⟨own, v, hown, h⟩ := Effects.bind_eq_ok_iff.mp h
  obtain ⟨status, w, hstatus, h⟩ := Effects.bind_eq_ok_iff.mp h
  cases h
  obtain ⟨hstreams, hstatusClean⟩ := List.append_eq_nil_iff.mp hclean
  obtain ⟨hsharedClean, hownClean⟩ := List.append_eq_nil_iff.mp hstreams
  have hsharedOk := (Effects.lift_apply_eq_ok_iff.mp hshared).1
  have hownOk : Clean (planCheck runner plan one) :=
    ⟨own, (Effects.lift_apply_eq_ok_iff.mp hown).1, hownClean⟩
  have hcompleted : ∀ block ∈ step.expectStream, one.timedOut = false ∧
      Clean (evaluateStream runner.py block.toStreamAssertions one.events false) := by
    intro block hblock
    rw [sharedCheck, Option.mem_def.mp hblock] at hsharedOk
    exact completed_of_clean ⟨shared, hsharedOk, hsharedClean⟩
  refine ⟨?_, ?_, ?_, status_of_evaluateStreamStatus hstatus hstatusClean⟩
  · intro block hblock
    exact ⟨(hcompleted block hblock).2, clean_planCheck hownOk⟩
  · intro hgiven
    obtain ⟨block, hblock⟩ := Option.ne_none_iff_exists'.mp hgiven
    exact (hcompleted block hblock).1
  · intro hnone
    by_contra herror
    rw [sharedCheck, hnone] at hsharedOk
    simp only [Option.isSome_iff_ne_none.mpr herror] at hsharedOk
    cases hsharedOk
    exact absurd hsharedClean (List.cons_ne_nil _ _)

/-- Streams judged without a failure each meet what the step declares. -/
theorem forall_collectedHolds {total : ℕ} {streams : List ((Option StreamPlan × Collected) × ℕ)}
    {result : AssertionResult} (h : runner.evaluateAll step scope total streams s = .ok result t)
    (hclean : result.failures = []) :
    ∀ entry ∈ streams, CollectedHolds runner step scope entry.1.1 entry.1.2 := by
  induction streams generalizing s result with
  | nil => simp
  | cons entry rest ih =>
      obtain ⟨⟨plan, one⟩, index⟩ := entry
      rw [evaluateAll] at h
      obtain ⟨first, u, hfirst, h⟩ := Effects.bind_eq_ok_iff.mp h
      obtain ⟨others, v, hothers, h⟩ := Effects.bind_eq_ok_iff.mp h
      cases h
      obtain ⟨hlabelled, hrest⟩ := List.append_eq_nil_iff.mp hclean
      have hfirstClean : first.failures = [] := by
        split at hlabelled
        · exact hlabelled
        · exact List.map_eq_nil_iff.mp hlabelled
      exact List.forall_mem_cons.mpr
        ⟨collectedHolds_of_evaluateCollected hfirst hfirstClean, ih hothers hrest⟩

/-- There is a stream, and one for each plan. -/
theorem forall₂_of_evaluateAll {collected : List Collected} {total : ℕ} {result : AssertionResult}
    (hlength : (streamPlans step).length = collected.length)
    (h : runner.evaluateAll step scope total ((streamPlans step).zip collected).zipIdx s =
      .ok result t) (hclean : result.failures = []) :
    List.Forall₂ (CollectedHolds runner step scope) (streamPlans step) collected := by
  refine List.forall₂_iff_zip.mpr ⟨hlength, ?_⟩
  intro plan one hmem
  rw [← List.zipIdx_map_fst 0 ((streamPlans step).zip collected)] at hmem
  obtain ⟨entry, hentry, hpair⟩ := List.mem_map.mp hmem
  have hholds := forall_collectedHolds h hclean entry hentry
  rwa [hpair] at hholds

theorem streamPlans_ne_nil (step : StepFields) : streamPlans step ≠ [] := by
  unfold streamPlans
  split
  · exact List.cons_ne_nil _ _
  · next hplans => simpa using hplans

/-- How long the streams of a step are read. -/
def readDeadline (runner : Runner σ) (step : StepFields) : ℕ :=
  (declaredTimeout step.expectStream).getD runner.streamTimeoutMs

/-- Streams are read no longer than the step declares, unless it declares zero. -/
theorem readDeadline_le (hkept : runner.KeepsBound step) :
    ∀ block ∈ step.expectStream, ∀ ms ∈ block.timeoutMs, readDeadline runner step ≤ ms := by
  intro block hblock ms hms
  have hdeclared : declaredTimeout step.expectStream = (some ms).filter (· ≠ 0) := by
    rw [declaredTimeout, Option.mem_def.mp hblock, Option.bind_some, Option.mem_def.mp hms]
  rw [readDeadline, hdeclared]
  by_cases hzero : ms = 0
  · subst hzero
    simpa [Option.filter] using (hkept block hblock (Option.mem_def.mp hms)).le
  · simp [Option.filter, hzero]

/-- The blocks opened streams are judged on. -/
structure StreamsHold (runner : Runner σ) (step : StepFields) (scope : Scope) (deadline : ℕ)
    (collected : List Collected) : Prop where
  stream : (∀ block ∈ step.expectStream, ∀ ms ∈ block.timeoutMs, deadline ≤ ms) →
    runner.Holds step scope (.streams deadline collected) .stream
  noError : step.expectStream = none → step.expectError = none
  status : step.Declares .status → runner.Holds step scope (.streams deadline collected) .status
  assertions : runner.Holds step scope (.streams deadline collected) .assertions
  capture : runner.Holds step scope (.streams deadline collected) .capture

/-- Streams a step passes on satisfy what the step declares of them. -/
theorem judgeStreams_pass {collected : List Collected}
    (hlength : (streamPlans step).length = collected.length)
    (h : runner.judgeStreams step scope started collected s = .ok r t)
    (hpass : r.1.result = .pass) (deadline : ℕ) :
    StreamsHold runner step r.2 deadline collected := by
  rw [judgeStreams] at h
  cases hoverdue : overdue step collected with
  | some late =>
      simp only [hoverdue] at h
      exact absurd (hpass.symm.trans (stepMessage_result h).1) (by simp)
  | none =>
      simp only [hoverdue] at h
      obtain ⟨⟨captured, missed⟩, u, hcapture, h⟩ := Effects.bind_eq_ok_iff.mp h
      cases missed with
      | some missed => exact absurd (hpass.symm.trans (stepMessage_result h).1) (by simp)
      | none =>
          obtain ⟨result, v, hresult, h⟩ := Effects.bind_eq_ok_iff.mp h
          obtain ⟨hclean, hscope, hnamed⟩ := finish_pass h hpass (.streams deadline collected)
          have heach := forall₂_of_evaluateAll hlength hresult hclean
          rw [← hscope] at heach hnamed
          refine ⟨?_, ?_, ?_, hnamed, ?_⟩
          · intro hbound block hblock
            refine ⟨deadline, collected, rfl,
              heach.imp fun plan one hone => hone.stream block hblock, ?_⟩
            intro ms hms
            refine ⟨hbound block hblock ms hms, ?_⟩
            intro one hone
            obtain ⟨plan, -, hholds⟩ := exists_left_of_mem heach hone
            apply hholds.completed
            simp [Option.mem_def.mp hblock]
          · intro hnone
            obtain ⟨plan, hplan⟩ := List.exists_mem_of_ne_nil _ (streamPlans_ne_nil step)
            obtain ⟨one, -, hone⟩ := exists_left_of_mem heach.flip hplan
            exact hone.noError hnone
          · rintro ⟨given, hgiven, hdeclared⟩ expect hexpect status hstatus
            obtain rfl : given = expect := Option.mem_unique hgiven hexpect
            obtain ⟨one, hone, rfl⟩ := List.mem_map.mp hstatus
            obtain ⟨plan, -, hholds⟩ := exists_left_of_mem heach hone
            exact hholds.status given hgiven hdeclared
          · intro entry hentry
            exact ⟨_, rfl, captureStep_none hcapture entry hentry⟩

/-- A refusal a step passes on satisfies its `expect_error`. -/
theorem streamRefusal_pass {e : Exception}
    (h : runner.streamRefusal step scope started e s = .ok r t) (hpass : r.1.result = .pass) :
    step.expectError ≠ none ∧ runner.Holds step r.2 (.refused e) .error ∧
      runner.Holds step r.2 (.refused e) .assertions := by
  rw [streamRefusal] at h
  cases hexpected : step.expectError with
  | none =>
      rw [hexpected] at h
      cases h
  | some expected =>
      cases hrefused : refusedError e with
      | none =>
          rw [hexpected, hrefused] at h
          cases h
      | some seen =>
          obtain ⟨observed, error⟩ := seen
          simp only [hexpected, hrefused] at h
          obtain ⟨resolved, u, hresolved, h⟩ := Effects.bind_eq_ok_iff.mp h
          obtain ⟨result, v, hresult, h⟩ := Effects.bind_eq_ok_iff.mp h
          obtain ⟨hclean, hscope, hnamed⟩ := finish_pass h hpass (.refused e)
          have hresultClean : result.failures = [] := by
            cases error with
            | none => exact hclean
            | some error => exact failures_explainUnnamed hclean
          rw [hscope]
          refine ⟨by simp, ?_, hnamed⟩
          intro given hgiven
          obtain rfl : expected = given := by simpa [hexpected] using hgiven
          have hobserved : observed ∈ (Transcript.refused e).observed? := by
            simp [Transcript.observed?, hrefused]
          refine ⟨observed, hobserved, s, result, v, ?_, hresultClean⟩
          rw [errorCheck, Effects.bind_apply_of_ok hresolved]
          exact hresult

end Streams

section Deliveries

variable {checks n : ℕ}

theorem succeeds_of_checkTargets {check : DeliveryCheck σ} {targets : List (Value × ℕ)}
    (h : checkTargets check targets checks s = .ok (n, none) t) :
    ∀ target ∈ targets, Succeeds (check target.1 target.2) := by
  induction targets generalizing checks s with
  | nil => simp
  | cons entry rest ih =>
      obtain ⟨target, index⟩ := entry
      rw [checkTargets] at h
      obtain ⟨result, u, hresult, h⟩ := Effects.bind_eq_ok_iff.mp h
      cases hfailures : result.failures with
      | cons failure others =>
          rw [hfailures] at h
          cases h
      | nil =>
          rw [hfailures] at h
          exact List.forall_mem_cons.mpr ⟨⟨s, result, u, hresult, hfailures⟩, ih h⟩

/-- Parts without a failure succeed on each of their targets. -/
theorem succeeds_of_checkParts {parts : List (DeliveryCheck σ × List Value)}
    (h : checkParts parts checks s = .ok (n, none) t) :
    ∀ part ∈ parts, ∀ target ∈ part.2.zipIdx, Succeeds (part.1 target.1 target.2) := by
  induction parts generalizing checks s with
  | nil => simp
  | cons part rest ih =>
      obtain ⟨check, targets⟩ := part
      rw [checkParts] at h
      obtain ⟨⟨counted, failed⟩, u, hchecked, h⟩ := Effects.bind_eq_ok_iff.mp h
      cases failed with
      | some failure => cases h
      | none => exact List.forall_mem_cons.mpr ⟨succeeds_of_checkTargets hchecked, ih h⟩

theorem succeeds_getElem {check : DeliveryCheck σ} {targets : List Value}
    (h : ∀ target ∈ targets.zipIdx, Succeeds (check target.1 target.2)) (i : ℕ) (target : Value)
    (hget : targets[i]? = some target) : Succeeds (check target i) := by
  apply h (target, i)
  rw [List.mem_zipIdx_iff_getElem?]
  exact hget

/-- Parts that succeed are the parts the block declares. -/
theorem deliveriesHold_of_parts {block : ExpectWebhook} {events delivered : List Value}
    (henough : block.minCount ≤ delivered.length) (hnonempty : events ≠ [])
    (h : ∀ part ∈ runner.webhookParts block scope events delivered,
      ∀ target ∈ part.2.zipIdx, Succeeds (part.1 target.1 target.2)) :
    runner.DeliveriesHold block scope events delivered where
  enough := henough
  eachEvent trees htrees := by
    apply succeeds_getElem (h (runner.checkEvent scope trees "each_event", events) ?_)
    simp [webhookParts, Option.mem_def.mp htrees]
  finalEvent trees htrees := by
    have hevent : events.getLast? = some (events.getLast hnonempty) :=
      List.getLast?_eq_some_getLast hnonempty
    refine ⟨events.getLast hnonempty, hevent, ?_⟩
    refine succeeds_getElem
      (h (runner.checkEvent scope trees "final_event", events.getLast?.toList) ?_) 0 _ ?_
    · simp [webhookParts, Option.mem_def.mp htrees]
    · simp [hevent]
  headers trees htrees := by
    apply succeeds_getElem (h (runner.checkHeaders scope trees, delivered) ?_)
    simp [webhookParts, Option.mem_def.mp htrees]
  token hgiven := by
    apply succeeds_getElem (h (runner.checkToken scope block.token, delivered) ?_)
    simp [webhookParts, hgiven]

/-- Deliveries a step passes on satisfy every part of its block. -/
theorem judgeDeliveries_pass {block : ExpectWebhook} {delivered : List Value}
    (henough : block.minCount ≤ delivered.length)
    (h : runner.judgeDeliveries step block scope started delivered s = .ok r t)
    (hpass : r.1.result = .pass) :
    (∃ events, delivered.mapM deliveredEvent = .ok events ∧
      runner.DeliveriesHold block r.2 events delivered) ∧
      runner.Holds step r.2 (.deliveries delivered) .assertions := by
  rw [judgeDeliveries] at h
  obtain ⟨events, u, hevents, h⟩ := Effects.bind_eq_ok_iff.mp h
  obtain ⟨⟨counted, failed⟩, v, hparts, h⟩ := Effects.bind_eq_ok_iff.mp h
  cases failed with
  | some failure => exact absurd (hpass.symm.trans (stepResult_result h).1) (by simp)
  | none =>
      obtain ⟨named, w, hnamed, h⟩ := Effects.bind_eq_ok_iff.mp h
      cases named with
      | some named => exact absurd (hpass.symm.trans (stepResult_result h).1) (by simp)
      | none =>
          rw [(stepResult_result h).2]
          have hevents := mapError_eq_ok_iff.mp (Effects.lift_apply_eq_ok_iff.mp hevents).1
          have hlength : events.length = delivered.length :=
            (mapM_eq_ok_iff.mp hevents).length_eq.symm
          have hnonempty : events ≠ [] := by
            intro hempty
            have hone := block.minCountPositive
            simp [hempty] at hlength
            omega
          exact ⟨⟨events, hevents, deliveriesHold_of_parts henough hnonempty
            (succeeds_of_checkParts hparts)⟩, succeeds_of_evaluateAssertions hnamed⟩

end Deliveries

section Exchanges

/-- A raw step passes on a reply. -/
theorem runRawStep_pass {raw : RawBlock}
    (h : runner.runRawStep step raw scope started s = .ok r t) (hpass : r.1.result = .pass) :
    ∃ response u, runner.rawExchange raw scope s = .ok (.reply response) u ∧
      runner.judgeReply step scope started response 1 u = .ok r t := by
  rw [runRawStep] at h
  obtain ⟨attempted, u, hresolved, h⟩ := Effects.bind_eq_ok_iff.mp h
  cases attempted with
  | error e =>
      dsimp only at h
      split at h
      · exact absurd (hpass.symm.trans (stepMessage_result h).1) (by simp)
      · cases h
  | ok resolved =>
      obtain ⟨response, v, hresponse, h⟩ := Effects.bind_eq_ok_iff.mp h
      refine ⟨response, v, ?_, h⟩
      rw [rawExchange, Effects.bind_apply_of_ok (Effects.attempt_apply_eq_ok_iff.mp hresolved),
        Effects.bind_apply_of_ok hresponse]
      rfl

/-- An operation step passes on the last reply of its poll. -/
theorem runOperationStep_pass {operation : Operation}
    (h : runner.runOperationStep step operation scope started s = .ok r t)
    (hpass : r.1.result = .pass) :
    ∃ response attempts u,
      runner.operationExchange step operation scope s = .ok (.reply response) u ∧
      runner.judgeReply step scope started response attempts u = .ok r t := by
  rw [runOperationStep] at h
  obtain ⟨attempted, u, hprepared, h⟩ := Effects.bind_eq_ok_iff.mp h
  cases attempted with
  | error e =>
      dsimp only at h
      split at h
      · exact absurd (hpass.symm.trans (stepMessage_result h).1) (by simp)
      · cases h
  | ok prepared =>
      obtain ⟨params, poll⟩ := prepared
      obtain ⟨dispatched, v, hdispatched, h⟩ := Effects.bind_eq_ok_iff.mp h
      cases dispatched with
      | error e =>
          cases e with
          | untilError message => exact absurd (hpass.symm.trans (stepMessage_result h).1) (by simp)
          | _ => cases h
      | ok polled =>
          obtain ⟨response, attempts, converged⟩ := polled
          cases converged with
          | false => exact absurd (hpass.symm.trans (stepMessage_result h).1) (by simp)
          | true =>
              refine ⟨response, attempts, v, ?_, h⟩
              rw [operationExchange,
                Effects.bind_apply_of_ok (Effects.attempt_apply_eq_ok_iff.mp hprepared)]
              dsimp only
              rw [Effects.bind_apply_of_ok (Effects.attempt_apply_eq_ok_iff.mp hdispatched)]
              rfl

/-- A client step passes on what the SUT's client made of the payload. -/
theorem runClientStep_pass {block : ClientResponseBlock} {trees : Fields}
    (hparsed : step.expectParsed = some trees)
    (h : runner.runClientStep step block scope started s = .ok r t) (hpass : r.1.result = .pass) :
    ∃ response u, runner.clientExchange block scope s = .ok (.reply response) u ∧
      runner.Holds step r.2 (.reply response) .parsed ∧
      runner.Holds step r.2 (.reply response) .assertions := by
  rw [runClientStep] at h
  obtain ⟨messageId, u, hmessageId, h⟩ := Effects.bind_eq_ok_iff.mp h
  obtain ⟨payload, v, hpayload, h⟩ := Effects.bind_eq_ok_iff.mp h
  obtain ⟨response, w, hresponse, h⟩ := Effects.bind_eq_ok_iff.mp h
  have hexchange : runner.clientExchange block scope s = .ok (.reply response) w := by
    rw [clientExchange, Effects.bind_apply_of_ok hmessageId, Effects.bind_apply_of_ok hpayload,
      Effects.bind_apply_of_ok hresponse]
    rfl
  cases herror : response.error with
  | some error =>
      rw [herror] at h
      exact absurd (hpass.symm.trans (stepMessage_result h).1) (by simp)
  | none =>
      rw [herror] at h
      obtain ⟨found, x, hfound, h⟩ := Effects.bind_eq_ok_iff.mp h
      cases found with
      | none => exact absurd (hpass.symm.trans (stepMessage_result h).1) (by simp)
      | some parsed =>
          obtain ⟨tree, y, htree, h⟩ := Effects.bind_eq_ok_iff.mp h
          obtain ⟨result, z, hresult, h⟩ := Effects.bind_eq_ok_iff.mp h
          obtain ⟨hclean, hscope, hnamed⟩ := finish_pass h hpass (.reply response)
          have hpart := mapError_eq_ok_iff.mp (Effects.lift_apply_eq_ok_iff.mp hfound).1
          rw [hscope]
          refine ⟨response, w, hexchange, ?_, hnamed⟩
          intro given hgiven
          obtain rfl : trees = given := by simpa [hparsed] using hgiven
          rw [hparsed] at htree
          refine ⟨response, rfl, herror, parsed, hpart, x, result, z, ?_, hclean⟩
          rw [bodyCheck]
          exact Effects.bind_eq_ok_iff.mpr ⟨tree, y, htree, hresult⟩

/-- A webhook step passes on enough deliveries. -/
theorem runWebhookStep_pass {block : ExpectWebhook}
    (h : runner.runWebhookStep step block scope started s = .ok r t)
    (hpass : r.1.result = .pass) :
    ∃ read, runner.readWebhook = some read ∧ ∃ delivered u,
      runner.webhookExchange block read scope s = .ok (.deliveries delivered) u ∧
      (∃ events, delivered.mapM deliveredEvent = .ok events ∧
        runner.DeliveriesHold block r.2 events delivered) ∧
      runner.Holds step r.2 (.deliveries delivered) .assertions := by
  rw [runWebhookStep] at h
  cases hread : runner.readWebhook with
  | none =>
      rw [hread] at h
      exact absurd (hpass.symm.trans (stepMessage_result h).1) (by simp)
  | some read =>
      rw [hread] at h
      obtain ⟨attempted, u, htask, h⟩ := Effects.bind_eq_ok_iff.mp h
      cases attempted with
      | error e =>
          dsimp only at h
          split at h
          · exact absurd (hpass.symm.trans (stepMessage_result h).1) (by simp)
          · cases h
      | ok task =>
          obtain ⟨now, v, hnow, h⟩ := Effects.bind_eq_ok_iff.mp h
          obtain ⟨delivered, w, hdelivered, h⟩ := Effects.bind_eq_ok_iff.mp h
          have hexchange : runner.webhookExchange block read scope s =
              .ok (.deliveries delivered) w := by
            rw [webhookExchange,
              Effects.bind_apply_of_ok (Effects.attempt_apply_eq_ok_iff.mp htask),
              Effects.bind_apply_of_ok hnow, Effects.bind_apply_of_ok hdelivered]
            rfl
          split at h
          · exact absurd (hpass.symm.trans (stepResult_result h).1) (by simp)
          · next henough =>
              exact ⟨read, rfl, delivered, w, hexchange,
                judgeDeliveries_pass (by omega) h hpass⟩

/-- A streaming step passes on its streams, or on their refusal. -/
theorem runStreamingStep_pass (h : runner.runStreamingStep step scope started s = .ok r t)
    (hpass : r.1.result = .pass) :
    (∃ collected u,
      runner.streamExchange step scope s =
        .ok (.streams (readDeadline runner step) collected) u ∧
      StreamsHold runner step r.2 (readDeadline runner step) collected) ∨
      ∃ e u, runner.streamExchange step scope s = .ok (.refused e) u ∧
        step.expectError ≠ none ∧ runner.Holds step r.2 (.refused e) .error ∧
        runner.Holds step r.2 (.refused e) .assertions := by
  rw [runStreamingStep] at h
  split at h
  · exact absurd (hpass.symm.trans (stepMessage_result h).1) (by simp)
  obtain ⟨attempted, u, hrequest, h⟩ := Effects.bind_eq_ok_iff.mp h
  cases attempted with
  | error e =>
      dsimp only at h
      split at h
      · exact absurd (hpass.symm.trans (stepMessage_result h).1) (by simp)
      · cases h
  | ok request =>
      obtain ⟨scripts, v, hscripts, h⟩ := Effects.bind_eq_ok_iff.mp h
      have hexchange : runner.streamExchange step scope s =
          .ok (.ofGathered (readDeadline runner step) (gathered step scripts)) v :=
        Effects.bind_eq_ok_iff.mpr ⟨request, u, Effects.attempt_apply_eq_ok_iff.mp hrequest,
          Effects.bind_eq_ok_iff.mpr ⟨scripts, v, hscripts, rfl⟩⟩
      cases hgathered : gathered step scripts with
      | error e =>
          rw [hgathered] at h hexchange
          exact .inr ⟨e, v, hexchange, streamRefusal_pass h hpass⟩
      | ok collected =>
          rw [hgathered] at h hexchange
          have hlength : (streamPlans step).length = collected.length := by
            simpa using (mapM_eq_ok_iff.mp hgathered).length_eq
          exact .inl ⟨collected, v, hexchange, judgeStreams_pass hlength h hpass _⟩

end Exchanges

end Runner

end A2aItk.Acts
