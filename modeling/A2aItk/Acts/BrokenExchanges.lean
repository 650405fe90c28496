import A2aItk.Acts.OwnExceptions
import A2aItk.Acts.TestRuns

/-!
# Exchanges that do not complete

Where the dispatcher raises an exception that carries no answer of the agent, the step
is an error, except where a stream was refused and the step declares `expect_error`:
there the message of the exception is judged as if the agent had sent it.
-/

namespace A2aItk.Acts

open Python

/-- A `DispatchError` that carries no answer of the agent. -/
structure Exception.Answerless (e : Exception) : Prop where
  dispatch : e.isDispatchError = true
  unanswered : e.isMalformedResponse = false

namespace Runner

variable {σ : Type} (runner : Runner σ)

/-- The exchange of the step, begun in this state, ends in an exception. -/
inductive Breaks (step : StepFields) (scope : Scope) (e : Exception) : σ → Prop
  | raw {raw resolved : RawBlock} {s t t' : σ} (hkind : step.kind = .raw)
      (hunary : step.streams = false) (hraw : step.raw = some raw)
      (hresolved : scope.resolvedRaw runner.py runner.newUuid raw s = .ok resolved t)
      (hraised : runner.dispatchRaw resolved rawHeaders t = .error e t') :
      Breaks step scope e s
  | operation {operation : Operation} {prepared : Fields × Option (Repeat × Value)} {s t t' : σ}
      (hkind : step.kind = .operation) (hunary : step.streams = false)
      (hoperation : step.operation = some operation)
      (hprepared : runner.prepareOperation step operation scope s = .ok prepared t)
      (hraised : runner.dispatchRepeatedly operation prepared.1 prepared.2 t = .error e t') :
      Breaks step scope e s
  | stream {request : StreamRequest} {s t : σ} (hkind : step.kind = .raw ∨ step.kind = .operation)
      (hstreams : step.streams = true) (honce : step.repetition = none)
      (hrequest : runner.streamRequest step scope s = .ok request t)
      (hraised : gathered step (runner.openStreams request (streamPlans step).length
        ((declaredTimeout step.expectStream).getD runner.streamTimeoutMs) t).1 = .error e) :
      Breaks step scope e s
  | client {block : ClientResponseBlock} {payload : Value} {s t t' : σ}
      (hkind : step.kind = .client) (hclient : step.clientResponse = some block)
      (hpayload : runner.substitute scope block.wirePayload (runner.newUuid s).2 =
        .ok payload t)
      (hraised : runner.dispatch .sendMessage
        (clientParams (runner.newUuid s).1 block payload) runner.headers t = .error e t') :
      Breaks step scope e s

section Verdicts

/-- A result that is a verdict on the SUT. -/
def IsVerdict (result : StepResult × Scope) : Prop := result.1.result ≠ .error

variable {runner} {step : StepFields} {scope : Scope} {started : ℚ} {s t : σ}

theorem own_stepResult {outcome : Outcome} {failure : Option FailureDetail}
    {attempts checks : ℕ} :
    Effects.RaisesOnly Exception.Own
      (runner.stepResult step scope outcome started failure attempts checks) := by
  apply Effects.RaisesOnly.bind
  · exact (Effects.RaisesOnly.update _ runner.clock).bind fun now => .pure _ _
  · exact fun durationMs => .pure _ _

theorem stepResult_apply (runner : Runner σ) (step : StepFields) (scope : Scope)
    (outcome : Outcome) (started : ℚ) (failure : Option FailureDetail) (attempts checks : ℕ)
    (s : σ) :
    runner.stepResult step scope outcome started failure attempts checks s =
      .ok
        ({ id := step.id, result := outcome,
           durationMs := truncate (((runner.clock s).1 - started) * 1000), failure, attempts,
           checks }, scope)
        (runner.clock s).2 := rfl

theorem own_evaluateAssertions (stepId : Option String) (assertions : List NamedAssertion) :
    Effects.RaisesOnly Exception.Own (runner.evaluateAssertions scope stepId assertions) := by
  induction assertions with
  | nil => exact .pure _ none
  | cons assertion rest ih =>
      rw [evaluateAssertions]
      have hsource : Effects.RaisesOnly Exception.Own
          (runner.substitute scope (.str assertion.source)) :=
        Scope.own_substitute runner.py runner.newUuid scope (.str assertion.source)
      refine hsource.handle ?_ ?_
      · intro source
        apply (Scope.own_resolvedAssertion runner.py runner.newUuid scope assertion).bind
        intro resolved
        apply (Effects.RaisesOnly.lift (own_evaluateNamed runner.py resolved source)).bind
        intro outcome
        cases outcome.failures with
        | nil => exact ih
        | cons failure others => exact .pure _ _
      · intro e he
        cases e with
        | unresolvedVariable message => exact .pure _ _
        | _ => exact .throw he

theorem own_finish (result : AssertionResult) (attempts : ℕ) :
    Effects.RaisesOnly Exception.Own (runner.finish step scope result started attempts) := by
  unfold finish
  cases result.failures with
  | cons failure others => exact own_stepResult
  | nil =>
      apply (own_evaluateAssertions (some step.id) (step.assertions.getD [])).bind
      intro named
      cases named <;> exact own_stepResult

theorem isVerdict_finish {result : AssertionResult} {attempts : ℕ} {r : StepResult × Scope}
    (h : runner.finish step scope result started attempts s = .ok r t) : IsVerdict r := by
  unfold finish at h
  cases hfailures : result.failures with
  | cons failure others =>
      simp only [hfailures, stepResult_apply, EStateM.Result.ok.injEq] at h
      simp [IsVerdict, ← h.1]
  | nil =>
      simp only [hfailures] at h
      obtain ⟨named, u, -, h⟩ := Effects.bind_eq_ok_iff.mp h
      cases named <;>
        · simp only [stepResult_apply, EStateM.Result.ok.injEq] at h
          simp [IsVerdict, ← h.1]

end Verdicts

section Refusals

variable {runner} {step : StepFields} {scope : Scope} {started : ℚ} {s t : σ}
  {expected : ExpectError} {e : Exception}

theorem refusedError_of_answerless (he : e.Answerless) :
    refusedError e = some ([("message", .str e.message)], none) := by
  obtain ⟨hdispatch, hunanswered⟩ := he
  cases e with
  | dispatchError message => rfl
  | unsupportedByBinding message => rfl
  | malformedResponse message => cases hunanswered
  | streamNotOpened message response => cases hunanswered
  | _ => cases hdispatch

/-- The message of the exception is judged as the agent's error. -/
theorem streamRefusal_of_answerless (he : e.Answerless)
    (hexpected : step.expectError = some expected) :
    runner.streamRefusal step scope started e = (do
      let resolved ← scope.resolvedError runner.py runner.newUuid expected
      let result ← Effects.lift (evaluateError runner.py resolved [("message", .str e.message)])
      runner.finish step scope result started 1) := by
  rw [streamRefusal, hexpected, refusedError_of_answerless he]
  rfl

theorem own_streamRefusal (he : e.Answerless) (hexpected : step.expectError = some expected) :
    Effects.RaisesOnly Exception.Own (runner.streamRefusal step scope started e) := by
  rw [streamRefusal_of_answerless he hexpected]
  apply (Scope.own_resolvedError runner.py runner.newUuid scope expected).bind
  intro resolved
  apply (Effects.RaisesOnly.lift (own_evaluateError runner.py resolved _)).bind
  exact fun result => own_finish result 1

theorem isVerdict_streamRefusal (he : e.Answerless) (hexpected : step.expectError = some expected)
    {r : StepResult × Scope} (h : runner.streamRefusal step scope started e s = .ok r t) :
    IsVerdict r := by
  rw [streamRefusal_of_answerless he hexpected] at h
  obtain ⟨resolved, u, -, h⟩ := Effects.bind_eq_ok_iff.mp h
  obtain ⟨result, w, -, h⟩ := Effects.bind_eq_ok_iff.mp h
  exact isVerdict_finish h

theorem streamRefusal_of_expects_none (hexpected : step.expectError = none) :
    runner.streamRefusal step scope started e = throw e := by
  rw [streamRefusal, hexpected]

end Refusals

section Kinds

variable {runner} {step : StepFields} {scope : Scope} {started : ℚ} {s t : σ} {e : Exception}

/-- Streams that do not complete are handed to `_stream_refusal`. -/
theorem runStreamingStep_of_gathered {request : StreamRequest} (honce : step.repetition = none)
    (hrequest : runner.streamRequest step scope s = .ok request t)
    (hraised : gathered step (runner.openStreams request (streamPlans step).length
      ((declaredTimeout step.expectStream).getD runner.streamTimeoutMs) t).1 = .error e) :
    runner.runStreamingStep step scope started s =
      runner.streamRefusal step scope started e
        (runner.openStreams request (streamPlans step).length
          ((declaredTimeout step.expectStream).getD runner.streamTimeoutMs) t).2 := by
  rw [runStreamingStep, if_neg (by simp [honce]),
    Effects.bind_apply_of_ok (Effects.attempt_apply_of_ok hrequest)]
  dsimp only
  rw [Effects.bind_apply_of_ok (Effects.update_apply _ t), hraised]

theorem runRawStep_of_dispatchRaw {raw resolved : RawBlock} {t' : σ}
    (hresolved : scope.resolvedRaw runner.py runner.newUuid raw s = .ok resolved t)
    (hraised : runner.dispatchRaw resolved rawHeaders t = .error e t') :
    runner.runRawStep step raw scope started s = .error e t' := by
  rw [runRawStep, Effects.bind_apply_of_ok (Effects.attempt_apply_of_ok hresolved)]
  exact Effects.bind_apply_of_error hraised

theorem runOperationStep_of_dispatch {operation : Operation}
    {prepared : Fields × Option (Repeat × Value)} {t' : σ} (he : e.Answerless)
    (hprepared : runner.prepareOperation step operation scope s = .ok prepared t)
    (hraised : runner.dispatchRepeatedly operation prepared.1 prepared.2 t = .error e t') :
    runner.runOperationStep step operation scope started s = .error e t' := by
  rw [runOperationStep, Effects.bind_apply_of_ok (Effects.attempt_apply_of_ok hprepared)]
  dsimp only
  rw [Effects.bind_apply_of_ok (Effects.attempt_apply_of_error hraised)]
  cases e with
  | untilError message => cases he.dispatch
  | _ => rfl

theorem runClientStep_of_dispatch {block : ClientResponseBlock} {payload : Value} {t' : σ}
    (hpayload : runner.substitute scope block.wirePayload (runner.newUuid s).2 = .ok payload t)
    (hraised : runner.dispatch .sendMessage
      (clientParams (runner.newUuid s).1 block payload) runner.headers t = .error e t') :
    runner.runClientStep step block scope started s = .error e t' := by
  rw [runClientStep, Effects.bind_apply_of_ok (Effects.update_apply _ s),
    Effects.bind_apply_of_ok hpayload]
  exact Effects.bind_apply_of_error hraised

theorem runKind_of_streams (hkind : step.kind = .raw ∨ step.kind = .operation)
    (hstreams : step.streams = true) :
    runner.runKind step scope started = runner.runStreamingStep step scope started := by
  cases hkind with
  | inl hkind => simp [runKind, hkind, hstreams]
  | inr hkind => simp [runKind, hkind, hstreams]

/-- An exchange that breaks ends the step's kind in the exception, but for a refused
stream that is judged. -/
theorem runKind_of_breaks (he : e.Answerless) (h : runner.Breaks step scope e s)
    (hunjudged : step.streams = true → step.expectError = none) :
    ∃ t, runner.runKind step scope started s = .error e t := by
  cases h with
  | @raw raw _ _ _ _ hkind hunary hraw hresolved hraised =>
      have hrun : runner.runKind step scope started = runner.runRawStep step raw scope started := by
        simp [runKind, hkind, hunary, hraw]
      rw [hrun]
      exact ⟨_, runRawStep_of_dispatchRaw hresolved hraised⟩
  | @operation operation _ _ _ _ hkind hunary hoperation hprepared hraised =>
      have hrun : runner.runKind step scope started =
          runner.runOperationStep step operation scope started := by
        simp [runKind, hkind, hunary, hoperation]
      rw [hrun]
      exact ⟨_, runOperationStep_of_dispatch he hprepared hraised⟩
  | stream hkind hstreams honce hrequest hraised =>
      rw [runKind_of_streams hkind hstreams, runStreamingStep_of_gathered honce hrequest hraised,
        streamRefusal_of_expects_none (hunjudged hstreams)]
      exact ⟨_, rfl⟩
  | @client block _ _ _ _ hkind hclient hpayload hraised =>
      have hrun : runner.runKind step scope started =
          runner.runClientStep step block scope started := by
        simp [runKind, hkind, hclient]
      rw [hrun]
      exact ⟨_, runClientStep_of_dispatch hpayload hraised⟩

end Kinds

section Steps

variable {runner} {scope : Scope} {started : ℚ} {s s' t : σ} {e : Exception}

theorem runStep_of_ok {step : StepFields} {r : StepResult × Scope}
    (hbegin : runner.beginStep step s = .ok started s')
    (h : runner.runKind step scope started s' = .ok r t) :
    runner.runStep step scope s = .ok r t := by
  rw [runStep, Effects.bind_apply_of_ok hbegin,
    Effects.bind_apply_of_ok (Effects.attempt_apply_of_ok h)]
  rfl

/-- An exception without an answer makes the step an error. -/
theorem runStep_of_answerless {step : StepFields} (he : e.Answerless)
    (hbegin : runner.beginStep step s = .ok started s')
    (h : runner.runKind step scope started s' = .error e t) :
    ∃ r t', runner.runStep step scope s = .ok r t' ∧ r.1.result = .error := by
  rw [runStep, Effects.bind_apply_of_ok hbegin,
    Effects.bind_apply_of_ok (Effects.attempt_apply_of_error h)]
  simp only [he.unanswered, he.dispatch]
  exact ⟨_, _, rfl, rfl⟩

/-- An exception of the evaluation leaves the step as it came. -/
theorem runStep_of_own {step : StepFields} (he : e.Own)
    (hbegin : runner.beginStep step s = .ok started s')
    (h : runner.runKind step scope started s' = .error e t) :
    runner.runStep step scope s = .error e t := by
  have hunanswered : e.isMalformedResponse = false := by
    cases e <;> first | rfl | cases he
  rw [runStep, Effects.bind_apply_of_ok hbegin,
    Effects.bind_apply_of_ok (Effects.attempt_apply_of_error h)]
  simp only [hunanswered, show e.isDispatchError = false from he]
  rfl

/-- A refused stream that is judged never makes the step an error. -/
theorem isVerdict_runStep_of_refused {step : StepFields} {expected : ExpectError} {u : σ}
    {r : StepResult × Scope} (he : e.Answerless) (hexpected : step.expectError = some expected)
    (hbegin : runner.beginStep step s = .ok started s')
    (hkind : runner.runKind step scope started s' = runner.streamRefusal step scope started e u)
    (hrun : runner.runStep step scope s = .ok r t) : IsVerdict r := by
  cases hrefused : runner.streamRefusal step scope started e u with
  | ok r' t' =>
      have hok := runStep_of_ok hbegin (hkind.trans hrefused)
      rw [hok, EStateM.Result.ok.injEq] at hrun
      rw [← hrun.1]
      exact isVerdict_streamRefusal he hexpected hrefused
  | error e' t' =>
      have hown := own_streamRefusal he hexpected u e' t' hrefused
      rw [runStep_of_own hown hbegin (hkind.trans hrefused)] at hrun
      cases hrun

theorem operation_eq_none {step : StepFields} (h : step.kind ≠ .operation) :
    step.operation = none := by
  by_contra hgiven
  exact h (by simp [StepFields.kind, Option.isSome_iff_ne_none.mpr hgiven])

/-- A step that asks the SUT nothing opens no stream. -/
theorem streams_eq_false_of_silent (step : Step)
    (hsilent : step.kind ∈ [StepKind.client, .webhook, .assertion]) : step.streams = false := by
  have hreplies := step.fieldsMatchTheKind.replies hsilent
  have hoperation : step.operation = none := by
    apply operation_eq_none
    intro hkind
    simp [hkind] at hsilent
  simp only [StepFields.repliesGiven, Bool.or_eq_false_iff] at hreplies
  simp [StepFields.streams, hreplies.1.1.2, hoperation]

/-- A step whose exchange does not complete is an error exactly when it does not stream
or declares no `expect_error`. -/
theorem runStep_error_iff (step : Step)
    (hbegin : runner.beginStep step.toStepFields s = .ok started s') (he : e.Answerless)
    (hbreaks : runner.Breaks step.toStepFields scope e s') :
    (∃ r t, runner.runStep step.toStepFields scope s = .ok r t ∧ r.1.result = .error) ↔
      ¬(step.streams = true ∧ step.expectError.isSome = true) := by
  constructor
  · rintro ⟨r, t, hrun, hresult⟩ ⟨hstreams, hexpects⟩
    obtain ⟨expected, hexpected⟩ := Option.isSome_iff_exists.mp hexpects
    cases hbreaks with
    | raw hkind hunary => simp [hstreams] at hunary
    | operation hkind hunary => simp [hstreams] at hunary
    | client hkind => simp [streams_eq_false_of_silent step (by simp [hkind])] at hstreams
    | stream hkind _ honce hrequest hraised =>
        have hrefused : ∃ u, runner.runKind step.toStepFields scope started s' =
            runner.streamRefusal step.toStepFields scope started e u := by
          rw [runKind_of_streams hkind hstreams]
          exact ⟨_, runStreamingStep_of_gathered honce hrequest hraised⟩
        obtain ⟨u, hkinds⟩ := hrefused
        exact isVerdict_runStep_of_refused he hexpected hbegin hkinds hrun hresult
  · intro hnot
    have hunjudged : step.streams = true → step.expectError = none := by
      intro hstreams
      by_contra hexpects
      exact hnot ⟨hstreams, Option.isSome_iff_ne_none.mpr hexpects⟩
    have hraises : ∃ t, runner.runKind step.toStepFields scope started s' = .error e t :=
      runKind_of_breaks he hbreaks hunjudged
    obtain ⟨t, hraised⟩ := hraises
    exact runStep_of_answerless he hbegin hraised

end Steps

end Runner

section DroppedConnection

/-- What a dispatcher makes of a connection that breaks off. -/
def dropped : Exception := .dispatchError "RemoteProtocolError: Server disconnected"

/-- A runner none of whose exchanges completes. -/
def droppingRunner : Runner Unit where
  py := .plain
  binding := .jsonrpc
  dispatch _ _ _ := throw dropped
  dispatchRaw _ _ := throw dropped
  openStreams _ _ _ s := (fun _ => { events := [], ending := .raised dropped }, s)
  readWebhook := none
  clock s := (0, s)
  sleep _ s := s
  newUuid s := ("0", s)
  environ _ := none
  vars := Dict.empty

/-- A subscription that has to fail, in whatever way. -/
def refusedSubscription : Step where
  id := "subscribe"
  operation := some .subscribeToTask
  expectError := some
    { message := .object [("exists", .bool true)], knownErrorName := knownErrorName_null }
  idNonempty := by decide
  exactlyOneKind := by decide
  fieldsMatchTheKind := by
    constructor <;> simp [StepFields.kind, StepFields.plans]

/-- The same subscription, asserting nothing. -/
def openSubscription : Step where
  id := "subscribe"
  operation := some .subscribeToTask
  idNonempty := by decide
  exactlyOneKind := by decide
  fieldsMatchTheKind := by
    constructor <;> simp [StepFields.kind, StepFields.repliesGiven]

theorem answerless_dropped : dropped.Answerless := ⟨rfl, rfl⟩

theorem breaks_of_subscription (step : StepFields)
    (hkind : step.operation = some .subscribeToTask) (hparams : step.params = none)
    (hexpects : step.expectStream = none) (honce : step.repetition = none) :
    droppingRunner.Breaks step (droppingRunner.initialScope Dict.empty) dropped () := by
  have hoperation : step.kind = .operation := by simp [StepFields.kind, hkind]
  have hrequest : droppingRunner.streamRequest step (droppingRunner.initialScope Dict.empty) () =
      .ok (.operation .subscribeToTask [] [("A2A-Version", "1.0")]) () := by
    simp only [Runner.streamRequest, hoperation, hkind, hparams]
    rfl
  refine .stream (.inr hoperation) ?_ honce hrequest ?_
  · simp [StepFields.streams, hkind, Operation.streaming]
  · simp [Runner.gathered, Runner.streamPlans, StepFields.plans, hexpects]
    rfl

/-- The connection drops, and the step that asserts nothing is an error. -/
theorem dropped_subscription_is_error :
    ∃ r t, droppingRunner.runStep openSubscription.toStepFields
      (droppingRunner.initialScope Dict.empty) () = .ok r t ∧ r.1.result = .error := by
  apply (Runner.runStep_error_iff openSubscription rfl answerless_dropped
    (breaks_of_subscription _ rfl rfl rfl rfl)).mpr
  simp [openSubscription]

/-- The connection drops, and the subscription that has to fail passes. -/
theorem dropped_connection_passes :
    dropped.Answerless ∧
      droppingRunner.Breaks refusedSubscription.toStepFields
        (droppingRunner.initialScope Dict.empty) dropped () ∧
      ∃ r t, droppingRunner.runStep refusedSubscription.toStepFields
        (droppingRunner.initialScope Dict.empty) () = .ok r t ∧ r.1.result = .pass :=
  ⟨answerless_dropped, breaks_of_subscription _ rfl rfl rfl rfl, _, _, rfl, rfl⟩

end DroppedConnection

end A2aItk.Acts
