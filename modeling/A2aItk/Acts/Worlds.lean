import A2aItk.Acts.TestRuns
import A2aItk.Python.Simulation

/-!
# Worlds that answer alike

A relation between states of the world under which a runner is answered alike, its clock
apart by a constant. Whatever the runner does with a step is then the same.

## Implementation notes

There is one lemma for each definition of the runner. Those that are told when the step
was started are started that much later in the second world.
-/

namespace A2aItk.Acts

open Python Effects

section Substitution

variable {σ : Type} {R : σ → σ → Prop} {newUuid : σ → String × σ}
variable (py : Interpreter) (scope : Scope)

namespace Scope

/-- Only a new UUID is asked of the world. -/
theorem blind_resolve (hnew : Blind R (update newUuid : EStateM Exception σ String))
    (reference : List Char) : Blind R (scope.resolve py newUuid reference) := by
  unfold resolve
  dsimp only
  split
  · exact hnew.map
  · split
    · split
      · exact .pure rfl
      · exact .pure rfl
      · split
        · split
          · exact .pure rfl
          · exact .throw _
        · split
          · exact .throw _
          · exact .throw _
    · split
      · exact .pure rfl
      · exact .throw _

/-- The pieces of a text are resolved from left to right. -/
theorem blind_interpolate (hnew : Blind R (update newUuid : EStateM Exception σ String))
    (parts : List Piece) : Blind R (scope.interpolate py newUuid parts) := by
  induction parts with
  | nil => exact .pure rfl
  | cons part rest ih =>
      cases part with
      | char c => exact ih.andThen fun text => .pure rfl
      | reference body =>
          apply (blind_resolve py scope hnew body).andThen
          intro value
          exact ih.andThen fun text => .pure rfl

/-- A text is one reference or is put together from pieces. -/
theorem blind_substituteText (hnew : Blind R (update newUuid : EStateM Exception σ String))
    (text : String) : Blind R (scope.substituteText py newUuid text) := by
  unfold substituteText
  split
  · exact blind_resolve py scope hnew _
  · exact (blind_interpolate py scope hnew _).andThen fun chars => .pure rfl

mutual

/-- A value is substituted alike in both worlds, by recursion on it. -/
theorem blind_substitute (hnew : Blind R (update newUuid : EStateM Exception σ String)) :
    ∀ v : Value, Blind R (scope.substitute py newUuid v)
  | .scalar (.str text) => blind_substituteText py scope hnew text
  | .scalar .null | .scalar (.bool _) | .scalar (.int _) | .scalar (.float _)
  | .scalar (.other _) => .pure rfl
  | .list items => (blind_substituteItems hnew items).map
  | .dict entries => (blind_substituteEntries hnew entries).map

/-- The items of a list, in order. -/
theorem blind_substituteItems (hnew : Blind R (update newUuid : EStateM Exception σ String)) :
    ∀ items : List Value, Blind R (scope.substituteItems py newUuid items)
  | [] => .pure rfl
  | v :: rest =>
      (blind_substitute hnew v).andThen fun _ =>
        (blind_substituteItems hnew rest).andThen fun _ => .pure rfl

/-- The entries of a mapping, in order. -/
theorem blind_substituteEntries
    (hnew : Blind R (update newUuid : EStateM Exception σ String)) :
    ∀ entries : List (Scalar × Value), Blind R (scope.substituteEntries py newUuid entries)
  | [] => .pure rfl
  | (_, v) :: rest =>
      (blind_substitute hnew v).andThen fun _ =>
        (blind_substituteEntries hnew rest).andThen fun _ => .pure rfl

end

/-- The fields of a block are substituted as the entries of a mapping. -/
theorem blind_substituteFields (hnew : Blind R (update newUuid : EStateM Exception σ String))
    (fields : Fields) : Blind R (scope.substituteFields py newUuid fields) := by
  apply Simulates.mapM
  intro field _
  exact (blind_substitute py scope hnew field.2).andThen fun v => .pure rfl

/-- A value that may be missing. -/
theorem blind_substituteGiven (hnew : Blind R (update newUuid : EStateM Exception σ String))
    (v : Value) : Blind R (scope.substituteGiven py newUuid v) := by
  unfold substituteGiven
  split
  · exact .pure rfl
  · exact blind_substitute py scope hnew v

/-- A text that may be missing. -/
theorem blind_substituteOptional (hnew : Blind R (update newUuid : EStateM Exception σ String))
    (text : Option String) : Blind R (scope.substituteOptional py newUuid text) := by
  cases text with
  | none => exact .pure rfl
  | some text => exact (blind_substitute py scope hnew (.str text)).map

/-- The headers of a request, if it has any. -/
theorem blind_substituteHeaders (hnew : Blind R (update newUuid : EStateM Exception σ String))
    (headers : Option (List (String × String))) :
    Blind R (scope.substituteHeaders py newUuid headers) := by
  cases headers with
  | none => exact .pure rfl
  | some headers => exact (blind_substituteFields py scope hnew _).andThen fun _ => .pure rfl

/-- The pattern of a collection is substituted field by field. -/
theorem blind_substituteCollection
    (hnew : Blind R (update newUuid : EStateM Exception σ String))
    (pattern : Option CollectionMatch) :
    Blind R (scope.substituteCollection py newUuid pattern) := by
  cases pattern with
  | none => exact .pure rfl
  | some pattern =>
      apply (blind_substitute py scope hnew (.str pattern.path)).andThen
      intro path
      exact (blind_substituteFields py scope hnew pattern.pattern).andThen fun _ => .pure rfl

/-- An expected error is resolved alike. -/
theorem blind_resolvedError (hnew : Blind R (update newUuid : EStateM Exception σ String))
    (expected : ExpectError) : Blind R (scope.resolvedError py newUuid expected) := by
  apply (blind_substituteGiven py scope hnew expected.errorType).andThen
  intro errorType
  apply (blind_substituteGiven py scope hnew expected.message).andThen
  intro message
  apply (blind_substituteGiven py scope hnew expected.details).andThen
  intro details
  split
  · exact .pure rfl
  · exact .throw _

/-- A raw request is resolved alike. -/
theorem blind_resolvedRaw (hnew : Blind R (update newUuid : EStateM Exception σ String))
    (raw : RawBlock) : Blind R (scope.resolvedRaw py newUuid raw) := by
  apply (blind_substitute py scope hnew (.str raw.path)).andThen
  intro path
  apply (blind_substituteHeaders py scope hnew raw.headers).andThen
  intro headers
  apply (blind_substituteGiven py scope hnew raw.body).andThen
  intro body
  apply (blind_substituteOptional py scope hnew raw.bodyRaw).andThen
  intro bodyRaw
  apply (Simulates.lift (textField path)).andThen
  intro path
  apply (Simulates.lift (headersField headers)).andThen
  intro headers
  apply (Simulates.lift (optionalTextField bodyRaw)).andThen
  intro bodyRaw
  split
  · exact .pure rfl
  · exact .throw _

/-- A named assertion is resolved alike. -/
theorem blind_resolvedAssertion (hnew : Blind R (update newUuid : EStateM Exception σ String))
    (assertion : NamedAssertion) : Blind R (scope.resolvedAssertion py newUuid assertion) := by
  apply (blind_substituteOptional py scope hnew assertion.id).andThen
  intro id
  apply (blind_substituteOptional py scope hnew assertion.description).andThen
  intro description
  apply (blind_substituteOptional py scope hnew assertion.path).andThen
  intro path
  apply (blind_substituteGiven py scope hnew assertion.pattern).andThen
  intro pattern
  apply (blind_substituteCollection py scope hnew assertion.any).andThen
  intro any
  apply (blind_substituteCollection py scope hnew assertion.all).andThen
  intro all
  apply (blind_substituteCollection py scope hnew assertion.noneOf).andThen
  intro noneOf
  apply (Simulates.lift (optionalTextField id)).andThen
  intro id
  apply (Simulates.lift (optionalTextField description)).andThen
  intro description
  apply (Simulates.lift (optionalTextField path)).andThen
  intro path
  apply (Simulates.lift (collectionField any)).andThen
  intro any
  apply (Simulates.lift (collectionField all)).andThen
  intro all
  apply (Simulates.lift (collectionField noneOf)).andThen
  intro noneOf
  split
  · exact .pure rfl
  · exact .throw _

end Scope

end Substitution

namespace Runner

variable {σ : Type}

/-- Related worlds answer the runner alike, the second with a clock that is `δ` ahead. -/
structure Answers (runner : Runner σ) (δ : ℚ) (R : σ → σ → Prop) : Prop where
  dispatch : ∀ operation params headers, Blind R (runner.dispatch operation params headers)
  dispatchRaw : ∀ raw headers, Blind R (runner.dispatchRaw raw headers)
  openStreams : ∀ request count deadlineMs,
    Blind R (update (runner.openStreams request count deadlineMs) :
      EStateM Exception σ (ℕ → StreamScript))
  readWebhook : ∀ read ∈ runner.readWebhook, ∀ taskId, Blind R (read taskId)
  now : Simulates R (fun a b => b = a + δ) runner.now runner.now
  pause : ∀ seconds, Blind R (runner.pause seconds)
  newUuid : Blind R (update runner.newUuid : EStateM Exception σ String)

/-- The same result, of this step and no skip. -/
def Attributed (step : StepFields) (a b : StepResult × Scope) : Prop :=
  a = b ∧ a.1.id = step.id ∧ a.1.result ≠ .skip

namespace Answers

variable {runner : Runner σ} {δ : ℚ} {R : σ → σ → Prop} (h : runner.Answers δ R)
include h

theorem blind_substitute (scope : Scope) (v : Value) : Blind R (runner.substitute scope v) :=
  scope.blind_substitute runner.py h.newUuid v

theorem blind_substituteFields (scope : Scope) (fields : Fields) :
    Blind R (runner.substituteFields scope fields) :=
  scope.blind_substituteFields runner.py h.newUuid fields

/-- A message without an id is given one, the same in both worlds. -/
theorem blind_ensureMessageId (params : Fields) : Blind R (runner.ensureMessageId params) := by
  unfold ensureMessageId
  split
  · split
    · exact .pure rfl
    · exact h.newUuid.andThen fun id => .pure rfl
  · exact .pure rfl

theorem blind_prepareParams (operation : Operation) (params : Fields) (scope : Scope) :
    Blind R (runner.prepareParams operation params scope) := by
  apply (h.blind_substituteFields scope params).andThen
  intro substituted
  exact h.blind_ensureMessageId _

/-- One reply after another is alike, so the polling ends at the same one. -/
theorem blind_attempts (operation : Operation) (params : Fields) (expression : Value)
    (delayMs : ℕ) (backoff : Backoff) (left attempt : ℕ) :
    Blind R (runner.attempts operation params expression delayMs backoff left attempt) := by
  induction left generalizing attempt with
  | zero =>
      apply (h.dispatch operation params runner.headers).andThen
      intro response
      apply (Simulates.lift _).andThen
      intro holds
      split
      · exact .pure rfl
      · exact .pure rfl
  | succ left ih =>
      apply (h.dispatch operation params runner.headers).andThen
      intro response
      apply (Simulates.lift _).andThen
      intro holds
      split
      · exact .pure rfl
      · apply (h.pause _).andThen
        intro _
        exact ih (attempt + 1)

/-- A step is dispatched once, or until its expression holds. -/
theorem blind_dispatchRepeatedly (operation : Operation) (params : Fields)
    (poll : Option (Repeat × Value)) :
    Blind R (runner.dispatchRepeatedly operation params poll) := by
  unfold dispatchRepeatedly
  split
  · exact (h.dispatch operation params runner.headers).andThen fun response => .pure rfl
  · exact h.blind_attempts _ _ _ _ _ _ _

section Results

/-- A clock that is apart by a constant measures the same time. -/
theorem blind_elapsedMs (started : ℚ) :
    Simulates R Eq (runner.elapsedMs started) (runner.elapsedMs (started + δ)) := by
  apply h.now.bind
  rintro a _ rfl
  apply Simulates.pure
  rw [add_sub_add_right_eq_sub]

/-- A result is the same but for the time at which the step was started. -/
theorem stepResult (step : StepFields) (scope : Scope) {outcome : Outcome} (started : ℚ)
    (failure : Option FailureDetail) (attempts checks : ℕ) (hskip : outcome ≠ .skip) :
    Simulates R (Attributed step)
      (runner.stepResult step scope outcome started failure attempts checks)
      (runner.stepResult step scope outcome (started + δ) failure attempts checks) := by
  apply (h.blind_elapsedMs started).andThen
  intro durationMs
  exact .pure ⟨rfl, rfl, hskip⟩

/-- A result with a message is too. -/
theorem stepMessage (step : StepFields) (scope : Scope) {outcome : Outcome} (started : ℚ)
    (message : String) (attempts : ℕ) (hskip : outcome ≠ .skip) :
    Simulates R (Attributed step)
      (runner.stepMessage step scope outcome started message attempts)
      (runner.stepMessage step scope outcome (started + δ) message attempts) :=
  h.stepResult step scope started _ attempts 0 hskip

/-- Assertions are evaluated in order, alike. -/
theorem blind_evaluateAssertions (scope : Scope) (stepId : Option String)
    (assertions : List NamedAssertion) :
    Blind R (runner.evaluateAssertions scope stepId assertions) := by
  induction assertions with
  | nil => exact .pure rfl
  | cons assertion rest ih =>
      apply (h.blind_substitute scope _).attempt.andThen
      intro source
      split
      · exact .pure rfl
      · exact .throw _
      · apply (scope.blind_resolvedAssertion runner.py h.newUuid assertion).andThen
        intro resolved
        apply (Simulates.lift _).andThen
        intro outcome
        split
        · exact .pure rfl
        · exact ih

/-- What a check has found is turned into a result. -/
theorem finish (step : StepFields) (scope : Scope) (result : AssertionResult) (started : ℚ)
    (attempts : ℕ) :
    Simulates R (Attributed step) (runner.finish step scope result started attempts)
      (runner.finish step scope result (started + δ) attempts) := by
  unfold Runner.finish
  split
  · exact h.stepResult step scope started _ _ _ (by simp)
  · apply (h.blind_evaluateAssertions scope _ _).andThen
    intro named
    split
    · exact h.stepResult step scope started _ _ _ (by simp)
    · exact h.stepResult step scope started _ _ _ (by simp)

omit h in
/-- Captures read the response, not the world. -/
theorem blind_captureStep (step : StepFields) (scope : Scope) (response : Value) :
    Blind R (captureStep step scope response : EStateM Exception σ (Scope × Option String)) := by
  unfold captureStep
  split
  · exact .pure rfl
  · exact .pure rfl
  · exact .throw _

end Results

section Webhook

omit h in
/-- Each target is checked alike, by induction on them. -/
theorem blind_checkTargets {check : DeliveryCheck σ} (hcheck : ∀ v i, Blind R (check v i))
    (targets : List (Value × ℕ)) (checks : ℕ) :
    Blind R (checkTargets check targets checks) := by
  induction targets generalizing checks with
  | nil => exact .pure rfl
  | cons target rest ih =>
      apply (hcheck target.1 target.2).andThen
      intro result
      split
      · exact .pure rfl
      · exact ih _

omit h in
/-- The checks of a block come part by part. -/
theorem blind_checkParts {parts : List (DeliveryCheck σ × List Value)}
    (hparts : ∀ part ∈ parts, ∀ v i, Blind R (part.1 v i)) (checks : ℕ) :
    Blind R (checkParts parts checks) := by
  induction parts generalizing checks with
  | nil => exact .pure rfl
  | cons part rest ih =>
      apply (blind_checkTargets (hparts part List.mem_cons_self) _ checks).andThen
      intro outcome
      split
      · exact .pure rfl
      · exact ih (fun other hother => hparts other (List.mem_cons_of_mem part hother)) _

/-- Every check of a webhook block is an assertion on what was delivered. -/
theorem blind_webhookParts (block : ExpectWebhook) (scope : Scope)
    (events delivered : List Value) :
    ∀ part ∈ runner.webhookParts block scope events delivered,
      ∀ v i, Blind R (part.1 v i) := by
  have hevent (tree : Fields) (name : String) (v : Value) (i : ℕ) :
      Blind R (runner.checkEvent scope tree name v i) :=
    (h.blind_substituteFields scope tree).andThen fun tree => .lift _
  have hheaders (tree : Fields) (v : Value) (i : ℕ) :
      Blind R (runner.checkHeaders scope tree v i) :=
    (h.blind_substituteFields scope tree).andThen fun tree =>
      (Simulates.lift _).andThen fun headers => .lift _
  have htoken (tree : Value) (v : Value) (i : ℕ) : Blind R (runner.checkToken scope tree v i) :=
    (h.blind_substitute scope tree).andThen fun tree =>
      (Simulates.lift _).andThen fun token => .lift _
  intro part hpart v i
  simp only [webhookParts, List.mem_append, Option.mem_toList, Option.map_eq_some_iff] at hpart
  rcases hpart with ((⟨tree, -, rfl⟩ | ⟨tree, -, rfl⟩) | ⟨tree, -, rfl⟩) | hlast
  · exact hevent tree _ v i
  · exact hevent tree _ v i
  · exact hheaders tree v i
  · split at hlast
    · exact absurd hlast List.not_mem_nil
    · rw [List.mem_singleton.mp hlast]
      exact htoken block.token v i

/-- The wait ends at the same reading, since both deadlines are as far off. -/
theorem blind_awaitDeliveries {read : String → EStateM Exception σ (List Value)}
    (hread : ∀ taskId, Blind R (read taskId)) (taskId : String) (minCount : ℕ) (deadline : ℚ)
    (fuel : ℕ) :
    Simulates R Eq (runner.awaitDeliveries read taskId minCount deadline fuel)
      (runner.awaitDeliveries read taskId minCount (deadline + δ) fuel) := by
  induction fuel with
  | zero => exact hread taskId
  | succ fuel ih =>
      apply (hread taskId).andThen
      intro delivered
      split
      · exact .pure rfl
      · apply h.now.bind
        rintro now _ rfl
        simp only [add_le_add_iff_right]
        split
        · exact .pure rfl
        · exact (h.pause _).andThen fun _ => ih

/-- The deliveries of both worlds are judged alike. -/
theorem judgeDeliveries (step : StepFields) (block : ExpectWebhook) (scope : Scope)
    (started : ℚ) (delivered : List Value) :
    Simulates R (Attributed step) (runner.judgeDeliveries step block scope started delivered)
      (runner.judgeDeliveries step block scope (started + δ) delivered) := by
  apply (Simulates.lift _).andThen
  intro events
  apply (blind_checkParts (h.blind_webhookParts block _ events delivered) 1).andThen
  intro outcome
  split
  · exact h.stepResult step _ started _ _ _ (by simp)
  · apply (h.blind_evaluateAssertions _ _ _).andThen
    intro named
    split
    · exact h.stepResult step _ started _ _ _ (by simp)
    · exact h.stepResult step _ started _ _ _ (by simp)

/-- A step that waits for deliveries. -/
theorem runWebhookStep (step : StepFields) (block : ExpectWebhook) (scope : Scope)
    (started : ℚ) :
    Simulates R (Attributed step) (runner.runWebhookStep step block scope started)
      (runner.runWebhookStep step block scope (started + δ)) := by
  unfold Runner.runWebhookStep
  split
  · exact h.stepMessage step scope started _ _ (by simp)
  next read hread =>
    apply (h.blind_substitute scope _).attempt.andThen
    intro task
    split
    · split
      · exact h.stepMessage step scope started _ _ (by simp)
      · exact .throw _
    · apply h.now.bind
      rintro now _ rfl
      rw [add_right_comm]
      apply (h.blind_awaitDeliveries (h.readWebhook read hread) _ _ _ _).andThen
      intro delivered
      split
      · exact h.stepResult step scope started _ _ _ (by simp)
      · exact h.judgeDeliveries step block scope started delivered

end Webhook

section Unary

/-- A step that checks what the client was told. -/
theorem runClientStep (step : StepFields) (block : ClientResponseBlock) (scope : Scope)
    (started : ℚ) :
    Simulates R (Attributed step) (runner.runClientStep step block scope started)
      (runner.runClientStep step block scope (started + δ)) := by
  apply h.newUuid.andThen
  intro messageId
  apply (h.blind_substitute scope block.wirePayload).andThen
  intro wirePayload
  apply (h.dispatch _ _ _).andThen
  intro response
  split
  · exact h.stepMessage step scope started _ _ (by simp)
  · apply (Simulates.lift _).andThen
    intro parsed
    split
    · exact h.stepMessage step scope started _ _ (by simp)
    · apply (h.blind_substituteFields _ _).andThen
      intro tree
      apply (Simulates.lift _).andThen
      intro result
      exact h.finish step _ result started 1

/-- An error that was expected is compared with the one that came. -/
theorem blind_evaluateExpectedError (expected : ExpectError) (error : WireError)
    (scope : Scope) : Blind R (runner.evaluateExpectedError expected error scope) := by
  apply (scope.blind_resolvedError runner.py h.newUuid expected).andThen
  intro resolved
  exact (Simulates.lift _).andThen fun result => .pure rfl

/-- Status and headers are fields of the response. -/
theorem blind_evaluateStatusAndHeaders (block : ExpectBlock) (response : WireResponse)
    (scope : Scope) : Blind R (runner.evaluateStatusAndHeaders block response scope) := by
  have hheaders (status : AssertionResult) (tree : Fields) :
      Blind R (runner.substituteFields scope tree >>= fun tree =>
        lift (evaluateHeaders runner.py tree
          (.object (response.headers.map fun header => (header.1, .str header.2))) "headers") >>=
            fun headers => (pure (status + headers) : EStateM Exception σ AssertionResult)) := by
    apply (h.blind_substituteFields scope tree).andThen
    intro tree
    exact (Simulates.lift _).andThen fun headers => .pure rfl
  unfold Runner.evaluateStatusAndHeaders
  dsimp only
  split
  · split
    · exact .pure rfl
    · exact hheaders .pass _
  · apply (h.blind_substitute scope block.status).andThen
    intro tree
    apply (Simulates.lift _).andThen
    intro status
    split
    · exact .pure rfl
    · exact hheaders status _

/-- A block is evaluated on one response. -/
theorem blind_evaluateExpected (step : StepFields) (block : ExpectBlock)
    (response : WireResponse) (scope : Scope) :
    Blind R (runner.evaluateExpected step block response scope) := by
  apply (h.blind_evaluateStatusAndHeaders block response scope).andThen
  intro outer
  split
  · exact .pure rfl
  · split
    · split
      · apply (h.blind_substituteFields scope _).andThen
        intro tree
        exact (Simulates.lift _).andThen fun inner => .pure rfl
      · exact .pure rfl
    · apply (h.blind_substituteFields scope _).andThen
      intro tree
      exact (Simulates.lift _).andThen fun inner => .pure rfl

/-- A step may expect a result or an error. -/
theorem blind_evaluateOutcome (step : StepFields) (response : WireResponse) (scope : Scope) :
    Blind R (runner.evaluateOutcome step response scope) := by
  unfold Runner.evaluateOutcome
  split
  · exact .pure rfl
  · dsimp only
    split
    · apply (h.blind_evaluateExpectedError _ _ scope).andThen
      intro named
      split
      · exact .pure rfl
      · apply (h.blind_evaluateExpected step _ response scope).andThen
        intro judged
        split
        · exact .pure rfl
        · exact .pure rfl
    · split
      · exact .pure rfl
      · apply (h.blind_evaluateExpected step _ response scope).andThen
        intro judged
        split
        · exact .pure rfl
        · exact .pure rfl

/-- The last reply of a step is judged, and captured from. -/
theorem judgeReply (step : StepFields) (scope : Scope) (started : ℚ) (response : WireResponse)
    (attempts : ℕ) :
    Simulates R (Attributed step) (runner.judgeReply step scope started response attempts)
      (runner.judgeReply step scope (started + δ) response attempts) := by
  apply (blind_captureStep step _ _).andThen
  intro captured
  split
  · exact h.stepMessage step _ started _ _ (by simp)
  · apply (h.blind_evaluateOutcome step response _).andThen
    intro result
    exact h.finish step _ result started attempts

/-- A step that sends a request as it is written. -/
theorem runRawStep (step : StepFields) (raw : RawBlock) (scope : Scope) (started : ℚ) :
    Simulates R (Attributed step) (runner.runRawStep step raw scope started)
      (runner.runRawStep step raw scope (started + δ)) := by
  apply (scope.blind_resolvedRaw runner.py h.newUuid raw).attempt.andThen
  intro resolved
  split
  · split
    · exact h.stepMessage step scope started _ _ (by simp)
    · exact .throw _
  · apply (h.dispatchRaw _ _).andThen
    intro response
    exact h.judgeReply step scope started response 1

/-- The request of a step is prepared alike. -/
theorem blind_prepareOperation (step : StepFields) (operation : Operation) (scope : Scope) :
    Blind R (runner.prepareOperation step operation scope) := by
  apply (h.blind_prepareParams operation _ scope).andThen
  intro params
  split
  · exact .pure rfl
  · exact (h.blind_substitute scope _).andThen fun expression => .pure rfl

/-- A step that calls an operation. -/
theorem runOperationStep (step : StepFields) (operation : Operation) (scope : Scope)
    (started : ℚ) :
    Simulates R (Attributed step) (runner.runOperationStep step operation scope started)
      (runner.runOperationStep step operation scope (started + δ)) := by
  apply (h.blind_prepareOperation step operation scope).attempt.andThen
  intro prepared
  split
  · split
    · exact h.stepMessage step scope started _ _ (by simp)
    · exact .throw _
  · apply (h.blind_dispatchRepeatedly operation _ _).attempt.andThen
    intro outcome
    split
    · exact h.stepMessage step scope started _ _ (by simp)
    · exact .throw _
    · split
      · exact h.judgeReply step scope started _ _
      · exact h.stepMessage step scope started _ _ (by simp)

end Unary

section Streaming

/-- The request that opens the streams of a step is prepared alike. -/
theorem blind_streamRequest (step : StepFields) (scope : Scope) :
    Blind R (runner.streamRequest step scope) := by
  unfold Runner.streamRequest
  split
  · exact (scope.blind_resolvedRaw runner.py h.newUuid _).andThen fun raw => .pure rfl
  · exact (h.blind_prepareParams _ _ scope).andThen fun params => .pure rfl
  · exact .throw _

/-- A stream that cannot be opened is a result too. -/
theorem streamRefusal (step : StepFields) (scope : Scope) (started : ℚ) (e : Exception) :
    Simulates R (Attributed step) (runner.streamRefusal step scope started e)
      (runner.streamRefusal step scope (started + δ) e) := by
  unfold Runner.streamRefusal
  split
  · apply (scope.blind_resolvedError runner.py h.newUuid _).andThen
    intro resolved
    apply (Simulates.lift _).andThen
    intro result
    exact h.finish step scope _ started 1
  · exact .throw _

/-- The status of a stream is read off its opening. -/
theorem blind_evaluateStreamStatus (step : StepFields) (scope : Scope) (status : Option ℤ)
    (count : ℕ) : Blind R (runner.evaluateStreamStatus step scope status count) := by
  unfold Runner.evaluateStreamStatus
  split
  · exact .pure rfl
  · split
    · exact .pure rfl
    · apply (h.blind_substitute scope _).andThen
      intro tree
      split
      · exact .pure rfl
      · exact .lift _

/-- The events of one stream are judged alike. -/
theorem blind_evaluateCollected (step : StepFields) (scope : Scope) (plan : Option StreamPlan)
    (collected : Collected) : Blind R (runner.evaluateCollected step scope plan collected) := by
  have hstatus (shared own : AssertionResult) (count : ℕ) :
      Blind R (runner.evaluateStreamStatus step scope collected.status count >>= fun status =>
        (pure (shared + own + status) : EStateM Exception σ AssertionResult)) :=
    (h.blind_evaluateStreamStatus step scope _ count).andThen fun _ => .pure rfl
  unfold Runner.evaluateCollected
  dsimp only
  split
  · apply (Simulates.lift _).andThen
    intro shared
    split
    · apply (Simulates.lift _).andThen
      intro own
      exact hstatus shared own _
    · exact hstatus shared .pass _
  · apply Simulates.andThen (Simulates.pure rfl)
    intro shared
    split
    · apply (Simulates.lift _).andThen
      intro own
      exact hstatus shared own _
    · exact hstatus shared .pass _

/-- The streams of a step are judged in order. -/
theorem blind_evaluateAll (step : StepFields) (scope : Scope) (total : ℕ)
    (entries : List ((Option StreamPlan × Collected) × ℕ)) :
    Blind R (runner.evaluateAll step scope total entries) := by
  induction entries with
  | nil => exact .pure rfl
  | cons entry rest ih =>
      apply (h.blind_evaluateCollected step scope entry.1.1 entry.1.2).andThen
      intro one
      exact ih.andThen fun others => .pure rfl

/-- What was collected is judged once all streams have ended. -/
theorem judgeStreams (step : StepFields) (scope : Scope) (started : ℚ)
    (collected : List Collected) :
    Simulates R (Attributed step) (runner.judgeStreams step scope started collected)
      (runner.judgeStreams step scope (started + δ) collected) := by
  unfold Runner.judgeStreams
  dsimp only
  split
  · exact h.stepMessage step scope started _ _ (by simp)
  · apply (blind_captureStep step _ _).andThen
    intro captured
    split
    · exact h.stepMessage step _ started _ _ (by simp)
    · apply (h.blind_evaluateAll step _ _ _).andThen
      intro result
      exact h.finish step _ result started 1

/-- A step that opens streams, with the triggers it fires meanwhile. -/
theorem runStreamingStep (step : StepFields) (scope : Scope) (started : ℚ) :
    Simulates R (Attributed step) (runner.runStreamingStep step scope started)
      (runner.runStreamingStep step scope (started + δ)) := by
  unfold Runner.runStreamingStep
  split
  · exact h.stepMessage step scope started _ _ (by simp)
  · apply (h.blind_streamRequest step scope).attempt.andThen
    intro request
    split
    · split
      · exact h.stepMessage step scope started _ _ (by simp)
      · exact .throw _
    · apply (h.openStreams _ _ _).andThen
      intro scripts
      split
      · exact h.streamRefusal step scope started _
      · exact h.judgeStreams step scope started _

end Streaming

section Steps

/-- A step is of one kind, and each has its lemma. -/
theorem runKind (step : StepFields) (scope : Scope) (started : ℚ) :
    Simulates R (Attributed step) (runner.runKind step scope started)
      (runner.runKind step scope (started + δ)) := by
  unfold Runner.runKind
  split
  · split
    · exact h.runClientStep step _ scope started
    · exact .throw _
  · split
    · exact h.runWebhookStep step _ scope started
    · exact .throw _
  · split
    · exact h.runStreamingStep step scope started
    · split
      · exact h.runRawStep step _ scope started
      · exact h.runOperationStep step _ scope started
      · exact .throw _

/-- The clock is read, and the delay of the step passes. -/
theorem beginStep (step : StepFields) :
    Simulates R (fun a b => b = a + δ) (runner.beginStep step) (runner.beginStep step) := by
  apply h.now.bind
  rintro started _ rfl
  split
  · apply (h.pause _).andThen
    intro _
    exact .pure rfl
  · exact .pure rfl

/-- A step has the same result in both worlds, whatever it raises. -/
theorem runStep (step : StepFields) (scope : Scope) :
    Simulates R (Attributed step) (runner.runStep step scope) (runner.runStep step scope) := by
  apply (h.beginStep step).bind
  rintro started _ rfl
  apply (h.runKind step scope started).attemptRel.bind
  rintro _ _ (⟨a, b, rfl, rfl, hab⟩ | ⟨e, rfl, rfl⟩)
  · exact .pure hab
  · dsimp only
    split
    · exact h.stepMessage step scope started _ _ (by simp)
    · split
      · exact h.stepMessage step scope started _ _ (by simp)
      · exact .throw _

/-- By induction on the steps: each begins with the scope the one before has left. -/
theorem blind_runSteps (steps : List Step) (scope : Scope) (done : List StepResult) :
    Blind R (runner.runSteps steps scope done) := by
  induction steps generalizing scope done with
  | nil => exact .pure rfl
  | cons step rest ih =>
      apply (h.runStep step.toStepFields scope).bind
      rintro result _ ⟨rfl, -⟩
      dsimp only
      split
      · exact ih _ _
      · exact .pure rfl

/-- The result of a test is the same but for its start. -/
theorem testResult (test : TestFields) (outcome : Outcome) (started : ℚ)
    (failure : Option FailureDetail) (steps : List StepResult) :
    Simulates R Eq (runner.testResult test outcome started failure steps)
      (runner.testResult test outcome (started + δ) failure steps) :=
  (h.blind_elapsedMs started).andThen fun _ => .pure rfl

/-- A test that is not held back: its steps, and then its own assertions. -/
theorem runUngated (test : Test) (vars : Dict String Value) (started : ℚ) :
    Simulates R Eq (runner.runUngated test vars started)
      (runner.runUngated test vars (started + δ)) := by
  apply (h.blind_runSteps test.steps _ []).andThen
  intro outcome
  split
  · exact h.testResult test.toTestFields _ started _ _
  · apply (h.blind_evaluateAssertions _ none _).andThen
    intro named
    split
    · exact h.testResult test.toTestFields _ started _ _
    · exact h.testResult test.toTestFields _ started _ _

/-- A test has the same result in worlds that answer alike. -/
theorem blind_runTest (test : Test) (vars : Dict String Value) :
    Blind R (runner.runTest test vars) := by
  apply h.now.bind
  rintro started _ rfl
  split
  · exact h.testResult test.toTestFields _ started _ _
  · exact .throw _
  · exact (h.blind_elapsedMs started).andThen fun _ => .pure rfl
  · split
    · exact h.testResult test.toTestFields _ started _ _
    · exact h.runUngated test vars started

end Steps

end Answers

end Runner

end A2aItk.Acts
