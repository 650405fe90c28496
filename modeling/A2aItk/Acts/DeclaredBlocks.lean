import A2aItk.Acts.PassingSteps

/-!
# Declared blocks

A step that passes has checked what it declares, but for the blocks the runner leaves
out: the headers and the body beside a stream that opened, and everything but
`expect_error` and the assertions beside a stream that was refused. A bound of zero on
the time of a stream is none to the runner either.
-/

namespace A2aItk.Acts

open Python

/-- The blocks the runner does not look at, by what the exchange came to. -/
def Transcript.overlooked : Transcript → List Block
  | .streams _ _ => [.headers, .body]
  | .refused _ => [.status, .headers, .capture]
  | _ => []

namespace Step

variable (step : Step)

theorem expectWebhook_eq_none (h : step.kind ≠ .webhook) : step.expectWebhook = none := by
  have hone := step.exactlyOneKind
  by_contra hgiven
  have hwebhook := Option.isSome_iff_ne_none.mpr hgiven
  cases hoperation : step.operation.isSome <;> cases hraw : step.raw.isSome <;>
    cases hclient : step.clientResponse.isSome <;>
    simp_all [StepFields.kindsGiven, StepFields.kind]

/-- A step that asks the SUT itself has no block of the other kinds. -/
theorem blocks_of_asks (hkind : step.kind = .raw ∨ step.kind = .operation) :
    step.expectParsed = none ∧ step.expectWebhook = none := by
  have hclient : step.kind ≠ .client := by rcases hkind with hkind | hkind <;> simp [hkind]
  have hwebhook : step.kind ≠ .webhook := by rcases hkind with hkind | hkind <;> simp [hkind]
  exact ⟨step.fieldsMatchTheKind.parsed hclient, step.expectWebhook_eq_none hwebhook⟩

/-- A step says in each block it declares what it says. -/
theorem varies_self {block : Block} (h : step.Declares block) :
    step.Varies step.toStepFields block := by
  cases block with
  | status =>
      obtain ⟨expect, hexpect, hgiven⟩ := h
      refine ⟨expect, hexpect, expect.status, hgiven, ?_⟩
      rw [← Option.mem_def.mp hexpect]
  | headers =>
      obtain ⟨expect, hexpect, hgiven⟩ := h
      obtain ⟨trees, htrees⟩ := Option.ne_none_iff_exists'.mp hgiven
      refine ⟨expect, hexpect, trees, ?_⟩
      rw [← htrees, ← Option.mem_def.mp hexpect]
  | body =>
      obtain ⟨expect, hexpect, hgiven⟩ := h
      obtain ⟨trees, htrees⟩ := Option.ne_none_iff_exists'.mp hgiven
      refine ⟨expect, hexpect, trees, ?_⟩
      rw [← htrees, ← Option.mem_def.mp hexpect]
  | error =>
      obtain ⟨expected, hexpected⟩ := Option.ne_none_iff_exists'.mp h
      exact ⟨expected, by rw [← hexpected]⟩
  | stream =>
      obtain ⟨block, hblock⟩ := Option.ne_none_iff_exists'.mp h
      exact ⟨block, hblock, block, Iff.rfl, by rw [← hblock]⟩
  | parsed =>
      obtain ⟨trees, htrees⟩ := Option.ne_none_iff_exists'.mp h
      exact ⟨trees, by rw [← htrees]⟩
  | webhook =>
      obtain ⟨block, hblock⟩ := Option.ne_none_iff_exists'.mp h
      exact ⟨block, by rw [← hblock]⟩
  | assertions =>
      obtain ⟨assertions, hassertions⟩ := Option.ne_none_iff_exists'.mp h
      exact ⟨assertions, by rw [← hassertions]⟩
  | capture =>
      obtain ⟨paths, hpaths⟩ := Option.ne_none_iff_exists'.mp h
      exact ⟨paths, by rw [← hpaths]⟩

theorem fieldsMatchTheKind_of_expect {step : StepFields} (h : step.FieldsMatchTheKind)
    {expect expect' : ExpectBlock} (hgiven : step.expect = some expect)
    (hbody : expect'.body = expect.body) :
    ({ step with expect := some expect' } : StepFields).FieldsMatchTheKind where
  params := h.params
  parsed := h.parsed
  clientParsed := h.clientParsed
  replies hsilent := by
    have hnone := h.replies hsilent
    simp [StepFields.repliesGiven, hgiven] at hnone
  bodyOrError block hblock := by
    obtain rfl : expect' = block := by simpa using hblock
    rw [hbody]
    exact h.bodyOrError expect hgiven
  errorOrStream := h.errorOrStream
  captureOne := h.captureOne
  repetition := h.repetition

/-- The step with another `expect` block, of the same body. -/
def withExpect {expect : ExpectBlock} (hgiven : expect ∈ step.expect) (expect' : ExpectBlock)
    (hbody : expect'.body = expect.body) : Step :=
  { step with
    expect := some expect'
    exactlyOneKind := step.exactlyOneKind
    fieldsMatchTheKind := fieldsMatchTheKind_of_expect step.fieldsMatchTheKind hgiven hbody }

theorem fieldsMatchTheKind_of_capture {step : StepFields} (h : step.FieldsMatchTheKind)
    {paths : List (String × String)} (hgiven : step.capture ≠ none)
    (hone : step.plans.length ≤ 1) :
    ({ step with capture := some paths } : StepFields).FieldsMatchTheKind where
  params := h.params
  parsed := h.parsed
  clientParsed := h.clientParsed
  replies hsilent := by
    have hnone := h.replies hsilent
    simp [StepFields.repliesGiven, Option.isSome_iff_ne_none.mpr hgiven] at hnone
  bodyOrError := h.bodyOrError
  errorOrStream := h.errorOrStream
  captureOne := .inr hone
  repetition := h.repetition

/-- The step with other captures. -/
def withCapture (paths : List (String × String)) (hgiven : step.capture ≠ none)
    (hone : step.plans.length ≤ 1) : Step :=
  { step with
    capture := some paths
    exactlyOneKind := step.exactlyOneKind
    fieldsMatchTheKind := fieldsMatchTheKind_of_capture step.fieldsMatchTheKind hgiven hone }

end Step

namespace Runner

variable {σ : Type} {runner : Runner σ} {scope : Scope} {started : ℚ}
  {s t : σ} {r : StepResult × Scope}

section Passing

/-- A step that passes has passed its own kind's definition. -/
theorem runStep_pass {step : StepFields} (h : runner.runStep step scope s = .ok r t)
    (hpass : r.1.result = .pass) : ∃ started s', runner.beginStep step s = .ok started s' ∧
      runner.runKind step scope started s' = .ok r t := by
  rw [runStep] at h
  obtain ⟨started, s', hbegin, h⟩ := Effects.bind_eq_ok_iff.mp h
  obtain ⟨attempted, u, hkind, h⟩ := Effects.bind_eq_ok_iff.mp h
  cases attempted with
  | ok result =>
      cases h
      exact ⟨started, s', hbegin, Effects.attempt_apply_eq_ok_iff.mp hkind⟩
  | error e =>
      dsimp only at h
      split at h
      · exact absurd (hpass.symm.trans (stepMessage_result h).1) (by simp)
      · split at h
        · exact absurd (hpass.symm.trans (stepMessage_result h).1) (by simp)
        · cases h

variable {step : StepFields}

theorem holds_of_reply {response : WireResponse} (hreply : ReplyHolds runner step scope response)
    (hassertions : runner.Holds step scope (.reply response) .assertions)
    (hcapture : runner.Holds step scope (.reply response) .capture)
    (hstream : step.expectStream = none) (hparsed : step.expectParsed = none)
    (hwebhook : step.expectWebhook = none) {block : Block} (hdeclares : step.Declares block) :
    runner.Holds step scope (.reply response) block := by
  cases block with
  | status => exact hreply.status hdeclares
  | headers => exact hreply.headers
  | body => exact hreply.body
  | error => exact hreply.error
  | stream => exact absurd hstream hdeclares
  | parsed => exact absurd hparsed hdeclares
  | webhook => exact absurd hwebhook hdeclares
  | assertions => exact hassertions
  | capture => exact hcapture

theorem holds_of_streams {collected : List Collected} {deadline : ℕ}
    (hstreams : StreamsHold runner step scope deadline collected)
    (hexclusive : step.expectError = none ∨ step.expectStream = none)
    (hparsed : step.expectParsed = none) (hwebhook : step.expectWebhook = none) {block : Block}
    (hdeclares : step.Declares block)
    (hregarded : block ∉ (Transcript.streams deadline collected).overlooked)
    (hbound : block = .stream →
      ∀ expected ∈ step.expectStream, ∀ ms ∈ expected.timeoutMs, deadline ≤ ms) :
    runner.Holds step scope (.streams deadline collected) block := by
  cases block with
  | status => exact hstreams.status hdeclares
  | headers => simp [Transcript.overlooked] at hregarded
  | body => simp [Transcript.overlooked] at hregarded
  | error => exact absurd (hexclusive.elim id hstreams.noError) hdeclares
  | stream => exact hstreams.stream (hbound rfl)
  | parsed => exact absurd hparsed hdeclares
  | webhook => exact absurd hwebhook hdeclares
  | assertions => exact hstreams.assertions
  | capture => exact hstreams.capture

theorem holds_of_refused {e : Exception} (herror : step.expectError ≠ none)
    (hobserved : runner.Holds step scope (.refused e) .error)
    (hassertions : runner.Holds step scope (.refused e) .assertions)
    (hbody : ∀ block ∈ step.expect, block.body = none ∨ step.expectError = none)
    (hexclusive : step.expectError = none ∨ step.expectStream = none)
    (hparsed : step.expectParsed = none) (hwebhook : step.expectWebhook = none) {block : Block}
    (hdeclares : step.Declares block) (hregarded : block ∉ (Transcript.refused e).overlooked) :
    runner.Holds step scope (.refused e) block := by
  cases block with
  | status => simp [Transcript.overlooked] at hregarded
  | headers => simp [Transcript.overlooked] at hregarded
  | body =>
      obtain ⟨expect, hexpect, hgiven⟩ := hdeclares
      exact absurd ((hbody expect hexpect).resolve_right herror) hgiven
  | error => exact hobserved
  | stream => exact absurd (hexclusive.resolve_left herror) hdeclares
  | parsed => exact absurd hparsed hdeclares
  | webhook => exact absurd hwebhook hdeclares
  | assertions => exact hassertions
  | capture => simp [Transcript.overlooked] at hregarded

/-- A step that asks the SUT nothing declares nothing of a reply. -/
theorem not_declares_of_silent (step : Step)
    (hsilent : step.kind ∈ [StepKind.client, .webhook, .assertion]) {block : Block}
    (hreply : block ∈ [Block.status, .headers, .body, .error, .stream, .capture]) :
    ¬ step.Declares block := by
  have hnone := step.fieldsMatchTheKind.replies hsilent
  simp only [StepFields.repliesGiven, Bool.or_eq_false_iff, Option.isSome_eq_false_iff,
    Option.isNone_iff_eq_none] at hnone
  obtain ⟨⟨⟨⟨hexpect, herror⟩, hstream⟩, hcapture⟩, -⟩ := hnone
  intro hdeclares
  cases block <;> simp_all [StepFields.Declares]

theorem kind_ne_operation (h : step.operation = none) : step.kind ≠ .operation := by
  rw [StepFields.kind, h]
  split_ifs <;> simp_all

theorem kind_ne_raw (h : step.raw = none) : step.kind ≠ .raw := by
  rw [StepFields.kind, h]
  split_ifs <;> simp_all

/-- The exchange comes to this transcript, and the blocks the runner regards hold of it. -/
def Regards (runner : Runner σ) (step : StepFields) (scope scope' : Scope) (s : σ) : Prop :=
  ∃ transcript u, runner.exchangeKind step scope s = .ok transcript u ∧
    ∀ block, step.Declares block → block ∉ transcript.overlooked →
      (block = .stream → runner.KeepsBound step) → runner.Holds step scope' transcript block

theorem regards_of_client (step : Step) (hkind : step.kind = .client)
    (h : runner.runKind step.toStepFields scope started s = .ok r t)
    (hpass : r.1.result = .pass) : Regards runner step.toStepFields scope r.2 s := by
  obtain ⟨trees, hparsed⟩ := Option.ne_none_iff_exists'.mp
    (step.fieldsMatchTheKind.clientParsed hkind)
  cases hclient : step.clientResponse with
  | none =>
      simp only [runKind, hkind, hclient] at h
      cases h
  | some block =>
      simp only [runKind, hkind, hclient] at h
      obtain ⟨response, u, hexchange, hholds, hassertions⟩ := runClientStep_pass hparsed h hpass
      refine ⟨.reply response, u, ?_, ?_⟩
      · simp only [exchangeKind, hkind, hclient]
        exact hexchange
      · intro block hdeclares hregarded _
        cases block with
        | parsed => exact hholds
        | assertions => exact hassertions
        | webhook => exact absurd (step.expectWebhook_eq_none (by simp [hkind])) hdeclares
        | _ =>
            exact absurd hdeclares (not_declares_of_silent step (by simp [hkind]) (by simp))

theorem regards_of_webhook (step : Step) (hkind : step.kind = .webhook)
    (h : runner.runKind step.toStepFields scope started s = .ok r t)
    (hpass : r.1.result = .pass) : Regards runner step.toStepFields scope r.2 s := by
  cases hwebhook : step.expectWebhook with
  | none =>
      simp only [runKind, hkind, hwebhook] at h
      cases h
  | some expected =>
      simp only [runKind, hkind, hwebhook] at h
      obtain ⟨read, hread, delivered, u, hexchange, hholds, hassertions⟩ :=
        runWebhookStep_pass h hpass
      refine ⟨.deliveries delivered, u, ?_, ?_⟩
      · simp only [exchangeKind, hkind, hwebhook, hread]
        exact hexchange
      · intro block hdeclares hregarded _
        cases block with
        | webhook =>
            intro given hgiven
            obtain rfl : expected = given := by simpa [hwebhook] using hgiven
            obtain ⟨events, hevents, hparts⟩ := hholds
            exact ⟨delivered, events, rfl, hevents, hparts⟩
        | assertions => exact hassertions
        | parsed => exact absurd (step.fieldsMatchTheKind.parsed (by simp [hkind])) hdeclares
        | _ =>
            exact absurd hdeclares (not_declares_of_silent step (by simp [hkind]) (by simp))

/-- A step that asks the SUT itself, with or without a stream. -/
theorem regards_of_streams (step : Step) (hkind : step.kind = .raw ∨ step.kind = .operation)
    (hstreams : step.streams = true)
    (h : runner.runKind step.toStepFields scope started s = .ok r t)
    (hpass : r.1.result = .pass) : Regards runner step.toStepFields scope r.2 s := by
  obtain ⟨hparsed, hwebhook⟩ := step.blocks_of_asks hkind
  have hexclusive := step.fieldsMatchTheKind.errorOrStream
  have hexchanges : runner.exchangeKind step.toStepFields scope =
      runner.streamExchange step.toStepFields scope := by
    rcases hkind with hkind | hkind <;> simp [exchangeKind, hkind, hstreams]
  rw [runKind_of_streams hkind hstreams] at h
  rcases runStreamingStep_pass h hpass with ⟨collected, u, hexchange, hholds⟩ |
    ⟨e, u, hexchange, herror, hobserved, hassertions⟩
  · refine ⟨.streams _ collected, u, by rw [hexchanges, hexchange], ?_⟩
    intro block hdeclares hregarded hkept
    exact holds_of_streams hholds hexclusive hparsed hwebhook hdeclares hregarded
      fun hstream => readDeadline_le (hkept hstream)
  · refine ⟨.refused e, u, by rw [hexchanges, hexchange], ?_⟩
    intro block hdeclares hregarded _
    exact holds_of_refused herror hobserved hassertions step.fieldsMatchTheKind.bodyOrError
      hexclusive hparsed hwebhook hdeclares hregarded

theorem regards_of_reply (step : Step) (hkind : step.kind = .raw ∨ step.kind = .operation)
    (hunary : step.streams = false)
    (h : runner.runKind step.toStepFields scope started s = .ok r t)
    (hpass : r.1.result = .pass) : Regards runner step.toStepFields scope r.2 s := by
  obtain ⟨hparsed, hwebhook⟩ := step.blocks_of_asks hkind
  have hstream : step.expectStream = none := by
    have hnot := (Bool.or_eq_false_iff.mp hunary).1
    simpa using hnot
  have hjudged : ∀ {response : WireResponse} {attempts : ℕ} {u : σ},
      runner.exchangeKind step.toStepFields scope s = .ok (.reply response) u →
      runner.judgeReply step.toStepFields scope started response attempts u = .ok r t →
      Regards runner step.toStepFields scope r.2 s := by
    intro response attempts u hexchange hjudge
    obtain ⟨hreply, hassertions, hcapture⟩ := judgeReply_pass hjudge hpass
    refine ⟨.reply response, u, hexchange, ?_⟩
    intro block hdeclares hregarded _
    exact holds_of_reply hreply hassertions hcapture hstream hparsed hwebhook hdeclares
  rcases hkind with hkind | hkind
  · cases hraw : step.raw with
    | none => exact absurd hkind (kind_ne_raw hraw)
    | some raw =>
        have hrun : runner.runRawStep step.toStepFields raw scope started s = .ok r t := by
          simpa [runKind, hkind, hunary, hraw] using h
        obtain ⟨response, u, hexchange, hjudge⟩ := runRawStep_pass hrun hpass
        apply hjudged _ hjudge
        simpa [exchangeKind, unaryExchange, hkind, hunary, hraw] using hexchange
  · cases hoperation : step.operation with
    | none => exact absurd hkind (kind_ne_operation hoperation)
    | some operation =>
        have hrun : runner.runOperationStep step.toStepFields operation scope started s =
            .ok r t := by
          simpa [runKind, hkind, hunary, hoperation] using h
        obtain ⟨response, attempts, u, hexchange, hjudge⟩ := runOperationStep_pass hrun hpass
        apply hjudged _ hjudge
        simpa [exchangeKind, unaryExchange, hkind, hunary, hoperation] using hexchange

/-- A step that passes satisfies every block it declares and the runner regards. -/
theorem holds_of_pass (step : Step) (h : runner.runStep step.toStepFields scope s = .ok r t)
    (hpass : r.1.result = .pass) : ∃ transcript u,
      runner.exchange step.toStepFields scope s = .ok transcript u ∧
        ∀ block, step.Declares block → block ∉ transcript.overlooked →
          (block = .stream → runner.KeepsBound step.toStepFields) →
          runner.Holds step.toStepFields r.2 transcript block := by
  obtain ⟨started, s', hbegin, hrun⟩ := runStep_pass h hpass
  have hregards : Regards runner step.toStepFields scope r.2 s' := by
    cases hkind : step.kind with
    | client => exact regards_of_client step hkind hrun hpass
    | webhook => exact regards_of_webhook step hkind hrun hpass
    | raw =>
        cases hstreams : step.streams with
        | true => exact regards_of_streams step (.inl hkind) hstreams hrun hpass
        | false => exact regards_of_reply step (.inl hkind) hstreams hrun hpass
    | operation =>
        cases hstreams : step.streams with
        | true => exact regards_of_streams step (.inr hkind) hstreams hrun hpass
        | false => exact regards_of_reply step (.inr hkind) hstreams hrun hpass
    | assertion =>
        have hoperation : step.operation = none := operation_eq_none (by simp [hkind])
        simp [runKind, hkind, streams_eq_false_of_silent step (by simp [hkind]), hoperation] at hrun
  obtain ⟨transcript, u, hexchange, hholds⟩ := hregards
  refine ⟨transcript, u, ?_, hholds⟩
  rw [exchange, Effects.bind_apply_of_ok hbegin]
  exact hexchange

end Passing

section Variants

/-- An assertion that nothing satisfies. -/
def impossible : Fields := [("not", .object [])]

theorem evaluateMap_impossible (py : Interpreter) (fold : Scalar → Scalar)
    (actual : Option Value) (path : Scalar) :
    evaluateMap py fold impossible.entries actual path =
      .ok (negationResult py (.object []) actual path .pass + .pass) := by
  have hnot : operator? (.str "not") (.object []) = some .negation := by decide
  change evaluateMap py fold [(.str "not", .object [])] actual path = _
  unfold evaluateMap
  simp only [hnot]
  simp [Value.object, evaluate, evaluateMap, conjoin]

/-- Whatever a tree that nothing satisfies is evaluated on, it fails. -/
theorem not_clean_impossible {py : Interpreter} {fold : Scalar → Scalar} {actual : Option Value}
    {path : Scalar} : ¬ Clean (evaluateMap py fold impossible.entries actual path) := by
  rintro ⟨result, hresult, hclean⟩
  rw [evaluateMap_impossible] at hresult
  cases hresult
  exact List.cons_ne_nil _ _ hclean

theorem not_succeeds_status (code : ℤ) :
    ¬ Succeeds (runner.statusCheck scope (.object impossible) code) := by
  rintro ⟨s, result, t, hrun, hclean⟩
  obtain ⟨tree, u, htree, hrun⟩ := Effects.bind_eq_ok_iff.mp hrun
  cases htree
  have hjudged := (Effects.lift_apply_eq_ok_iff.mp hrun).1
  exact not_clean_impossible ⟨result, hjudged, hclean⟩

theorem not_succeeds_headers (response : WireResponse) :
    ¬ Succeeds (runner.headersCheck scope impossible response) := by
  rintro ⟨s, result, t, hrun, hclean⟩
  obtain ⟨trees, u, htrees, hrun⟩ := Effects.bind_eq_ok_iff.mp hrun
  cases htrees
  have hjudged := (Effects.lift_apply_eq_ok_iff.mp hrun).1
  obtain ⟨folded, -, hjudged⟩ := bind_eq_ok_iff.mp hjudged
  exact not_clean_impossible ⟨result, hjudged, hclean⟩

/-- A path that cannot be split. -/
theorem readPath_bracket (response : Value) : ∀ value, readPath response "[" ≠ .ok value := by
  intro value hread
  obtain ⟨segments, hsegments, -⟩ := bind_eq_ok_iff.mp hread
  have hnone : (parsePath "[").toOption = none := by decide
  rw [hsegments] at hnone
  cases hnone

end Variants

section Refusals

/-- The exchange came to something the runner looks at as a whole. -/
def Regarded (transcript : Transcript) : Prop := transcript.overlooked = []

theorem regarded_rawExchange (raw : RawBlock) :
    Effects.ReturnsOnly Regarded (runner.rawExchange raw scope) :=
  .bind fun _ => .bind fun _ => .pure rfl

theorem regarded_operationExchange (step : StepFields) (operation : Operation) :
    Effects.ReturnsOnly Regarded (runner.operationExchange step operation scope) :=
  .bind fun _ => .bind fun _ => .pure rfl

theorem regarded_clientExchange (block : ClientResponseBlock) :
    Effects.ReturnsOnly Regarded (runner.clientExchange block scope) :=
  .bind fun _ => .bind fun _ => .bind fun _ => .pure rfl

theorem regarded_webhookExchange (block : ExpectWebhook)
    (read : String → EStateM Exception σ (List Value)) :
    Effects.ReturnsOnly Regarded (runner.webhookExchange block read scope) :=
  .bind fun _ => .bind fun _ => .bind fun _ => .pure rfl

theorem regarded_unaryExchange (step : StepFields) :
    Effects.ReturnsOnly Regarded (runner.unaryExchange step scope) := by
  unfold unaryExchange
  split
  · exact regarded_rawExchange _
  · exact regarded_operationExchange _ _
  · exact .throw _ _

/-- Only a step that streams is left a block the runner does not look at. -/
theorem regarded_exchangeKind {step : StepFields}
    (h : ¬((step.kind = .raw ∨ step.kind = .operation ∨ step.kind = .assertion) ∧
      step.streams = true)) : Effects.ReturnsOnly Regarded (runner.exchangeKind step scope) := by
  cases hkind : step.kind with
  | client =>
      simp only [exchangeKind, hkind]
      cases step.clientResponse with
      | none => exact .throw _ _
      | some block => exact regarded_clientExchange block
  | webhook =>
      simp only [exchangeKind, hkind]
      cases step.expectWebhook with
      | none => exact .throw _ _
      | some block =>
          cases runner.readWebhook with
          | none => exact .throw _ _
          | some read => exact regarded_webhookExchange block read
  | _ =>
      have hstreams : step.streams = false := by simpa [hkind] using h
      simp only [exchangeKind, hkind, hstreams]
      exact regarded_unaryExchange step

/-- A step whose streams leave a block out asks the SUT, and streams. -/
theorem streams_of_overlooked (step : Step) {transcript : Transcript} {u : σ} {block : Block}
    (h : runner.exchangeKind step.toStepFields scope s = .ok transcript u)
    (hmem : block ∈ transcript.overlooked) :
    (step.kind = .raw ∨ step.kind = .operation) ∧ step.streams = true := by
  have hasks : (step.kind = .raw ∨ step.kind = .operation ∨ step.kind = .assertion) ∧
      step.streams = true := by
    by_contra hnot
    have hregarded : transcript.overlooked = [] := regarded_exchangeKind hnot s transcript u h
    simp [hregarded] at hmem
  refine ⟨?_, hasks.2⟩
  rcases hasks.1 with hkind | hkind | hkind
  · exact .inl hkind
  · exact .inr hkind
  · have hsilent := streams_eq_false_of_silent step (by simp [hkind])
    simp [hsilent] at hasks

/-- The stream of the step is refused, and the refusal is judged with this result. -/
def Refused (runner : Runner σ) (step : StepFields) (scope : Scope) (e : Exception)
    (r : StepResult × Scope) (s t : σ) : Prop :=
  ∃ started s' u, runner.beginStep step s = .ok started s' ∧
    (step.kind = .raw ∨ step.kind = .operation) ∧ step.streams = true ∧
    step.repetition = none ∧ runner.streamExchange step scope s' = .ok (.refused e) u ∧
    runner.streamRefusal step scope started e u = .ok r t

theorem exchangeKind_of_streams {step : StepFields}
    (hkind : step.kind = .raw ∨ step.kind = .operation) (hstreams : step.streams = true) :
    runner.exchangeKind step scope = runner.streamExchange step scope := by
  rcases hkind with hkind | hkind <;> simp [exchangeKind, hkind, hstreams]

/-- Refused streams are handed to `_stream_refusal`. -/
theorem runStreamingStep_of_exchange {step : StepFields} {e : Exception} {u : σ}
    (honce : step.repetition = none)
    (h : runner.streamExchange step scope s = .ok (.refused e) u) :
    runner.runStreamingStep step scope started s =
      runner.streamRefusal step scope started e u := by
  rw [streamExchange] at h
  obtain ⟨request, v, hrequest, h⟩ := Effects.bind_eq_ok_iff.mp h
  obtain ⟨scripts, w, hscripts, h⟩ := Effects.bind_eq_ok_iff.mp h
  cases hscripts
  cases hgathered : gathered step (runner.openStreams request (streamPlans step).length
      ((declaredTimeout step.expectStream).getD runner.streamTimeoutMs) v).1 with
  | ok collected =>
      rw [hgathered] at h
      cases h
  | error e' =>
      rw [hgathered] at h
      cases h
      exact runStreamingStep_of_gathered honce hrequest hgathered

theorem refused_of_runStep (step : Step) {e : Exception} {u : σ}
    (hexchange : runner.exchange step.toStepFields scope s = .ok (.refused e) u)
    (hrun : runner.runStep step.toStepFields scope s = .ok r t) (hpass : r.1.result = .pass) :
    Refused runner step.toStepFields scope e r s t := by
  obtain ⟨started, s', hbegin, hkinds⟩ := runStep_pass hrun hpass
  rw [exchange, Effects.bind_apply_of_ok hbegin] at hexchange
  have hstatus : Block.status ∈ (Transcript.refused e).overlooked := by
    simp [Transcript.overlooked]
  obtain ⟨hkind, hstreams⟩ := streams_of_overlooked step hexchange hstatus
  rw [exchangeKind_of_streams hkind hstreams] at hexchange
  rw [runKind_of_streams hkind hstreams] at hkinds
  have honce : step.repetition = none := by
    by_contra hrepeats
    rw [runStreamingStep, if_pos (Option.isSome_iff_ne_none.mpr hrepeats)] at hkinds
    exact absurd (hpass.symm.trans (stepMessage_result hkinds).1) (by simp)
  rw [runStreamingStep_of_exchange honce hexchange] at hkinds
  exact ⟨started, s', u, hbegin, hkind, hstreams, honce, hexchange, hkinds⟩

theorem runStep_of_refused {step : StepFields} {e : Exception}
    (h : Refused runner step scope e r s t) :
    runner.runStep step scope s = .ok r t ∧
      ∃ u, runner.exchange step scope s = .ok (.refused e) u := by
  obtain ⟨started, s', u, hbegin, hkind, hstreams, honce, hexchange, hrefusal⟩ := h
  constructor
  · apply runStep_of_ok hbegin
    rw [runKind_of_streams hkind hstreams, runStreamingStep_of_exchange honce hexchange, hrefusal]
  · refine ⟨u, ?_⟩
    rw [exchange, Effects.bind_apply_of_ok hbegin, exchangeKind_of_streams hkind hstreams,
      hexchange]

end Refusals

section Counting

variable {step : Step} {e : Exception}

theorem holds_of_counts {transcript : Transcript} {u : σ} {block : Block}
    (hcounts : runner.Counts step.toStepFields scope s block) (hdeclares : step.Declares block)
    (hexchange : runner.exchange step.toStepFields scope s = .ok transcript u)
    (hrun : runner.runStep step.toStepFields scope s = .ok r t) (hpass : r.1.result = .pass) :
    runner.Holds step.toStepFields r.2 transcript block :=
  hcounts step (step.varies_self hdeclares) transcript u r t hexchange hrun hpass

/-- A status beside a refused stream does not count. -/
theorem not_counts_status (hrefused : Refused runner step.toStepFields scope e r s t)
    (hpass : r.1.result = .pass) (hdeclares : step.Declares .status) :
    ¬ runner.Counts step.toStepFields scope s .status := by
  intro hcounts
  obtain ⟨expect, hexpect, -⟩ := hdeclares
  let other := step.withExpect hexpect { expect with status := .object impossible } rfl
  have hother : Refused runner other.toStepFields scope e r s t := hrefused
  obtain ⟨hrun, u, hexchange⟩ := runStep_of_refused hother
  have hholds := hcounts other ⟨expect, hexpect, _, rfl, rfl⟩ _ u r t hexchange hrun hpass
  obtain ⟨code, -, hsucceeds⟩ := hholds _ rfl _ (List.mem_singleton.mpr rfl)
  exact not_succeeds_status code hsucceeds

/-- Neither do headers. -/
theorem not_counts_headers (hrefused : Refused runner step.toStepFields scope e r s t)
    (hpass : r.1.result = .pass) (hdeclares : step.Declares .headers) :
    ¬ runner.Counts step.toStepFields scope s .headers := by
  intro hcounts
  obtain ⟨expect, hexpect, -⟩ := hdeclares
  let other := step.withExpect hexpect { expect with headers := some impossible } rfl
  have hother : Refused runner other.toStepFields scope e r s t := hrefused
  obtain ⟨hrun, u, hexchange⟩ := runStep_of_refused hother
  have hholds := hcounts other ⟨expect, hexpect, impossible, rfl⟩ _ u r t hexchange hrun hpass
  obtain ⟨response, -, hsucceeds⟩ := hholds _ rfl _ rfl
  exact not_succeeds_headers response hsucceeds

/-- Neither does a capture. -/
theorem not_counts_capture (hrefused : Refused runner step.toStepFields scope e r s t)
    (hpass : r.1.result = .pass) (hdeclares : step.Declares .capture) :
    ¬ runner.Counts step.toStepFields scope s .capture := by
  intro hcounts
  have hone : step.plans.length ≤ 1 := by
    obtain ⟨started, s', u, -, -, -, -, -, hrefusal⟩ := hrefused
    have herror := (streamRefusal_pass hrefusal hpass).1
    have hstream := step.fieldsMatchTheKind.errorOrStream.resolve_left herror
    simp [StepFields.plans, hstream]
  let other := step.withCapture [("missed", "[")] hdeclares hone
  have hother : Refused runner other.toStepFields scope e r s t := hrefused
  obtain ⟨hrun, u, hexchange⟩ := runStep_of_refused hother
  have hholds := hcounts other ⟨_, rfl⟩ _ u r t hexchange hrun hpass
  obtain ⟨response, -, value, hread⟩ := hholds ("missed", "[") (List.mem_singleton.mpr rfl)
  exact readPath_bracket response _ hread

/-- A block the runner does not look at does not count. -/
theorem not_counts_of_overlooked {transcript : Transcript} {u : σ} {block : Block}
    (hexchange : runner.exchange step.toStepFields scope s = .ok transcript u)
    (hrun : runner.runStep step.toStepFields scope s = .ok r t) (hpass : r.1.result = .pass)
    (hmem : block ∈ transcript.overlooked) (hdeclares : step.Declares block) :
    ¬ runner.Counts step.toStepFields scope s block := by
  cases transcript with
  | reply response => cases hmem
  | deliveries delivered => cases hmem
  | streams deadline collected =>
      intro hcounts
      have hholds := holds_of_counts hcounts hdeclares hexchange hrun hpass
      simp only [Transcript.overlooked, List.mem_cons, List.not_mem_nil, or_false] at hmem
      rcases hmem with rfl | rfl <;>
        · obtain ⟨expect, hexpect, hgiven⟩ := hdeclares
          obtain ⟨trees, htrees⟩ := Option.ne_none_iff_exists'.mp hgiven
          obtain ⟨response, hresponse, -⟩ := hholds expect hexpect trees htrees
          cases hresponse
  | refused e =>
      have hrefused := refused_of_runStep step hexchange hrun hpass
      simp only [Transcript.overlooked, List.mem_cons, List.not_mem_nil, or_false] at hmem
      rcases hmem with rfl | rfl | rfl
      · exact not_counts_status hrefused hpass hdeclares
      · exact not_counts_headers hrefused hpass hdeclares
      · exact not_counts_capture hrefused hpass hdeclares

theorem declares_of_varies {step other : StepFields} {block : Block}
    (h : step.Varies other block) : other.Declares block := by
  cases block with
  | status =>
      obtain ⟨expect, -, tree, htree, rfl⟩ := h
      exact ⟨_, rfl, htree⟩
  | headers =>
      obtain ⟨expect, -, trees, rfl⟩ := h
      exact ⟨_, rfl, Option.some_ne_none _⟩
  | body =>
      obtain ⟨expect, -, trees, rfl⟩ := h
      exact ⟨_, rfl, Option.some_ne_none _⟩
  | stream =>
      obtain ⟨given, -, expected, -, rfl⟩ := h
      exact Option.some_ne_none _
  | _ =>
      obtain ⟨content, rfl⟩ := h
      exact Option.some_ne_none _

/-- Another stream block is read by its bound where the step's own is. -/
theorem keepsBound_of_varies {step other : StepFields} (h : step.Varies other .stream)
    (hkept : runner.KeepsBound step) : runner.KeepsBound other := by
  obtain ⟨given, hgiven, expected, hsame, rfl⟩ := h
  intro block hblock hzero
  obtain rfl : expected = block := by simpa using hblock
  exact hkept given hgiven (hsame.mp hzero)

/-- The exchange does not depend on the blocks that may be left out. -/
theorem exchange_of_varies {step other : StepFields} {block : Block} {transcript : Transcript}
    (h : step.Varies other block) (hmem : block ∈ transcript.overlooked) :
    runner.exchange other scope = runner.exchange step scope := by
  cases block with
  | status =>
      obtain ⟨expect, -, tree, -, rfl⟩ := h
      rfl
  | headers =>
      obtain ⟨expect, -, trees, rfl⟩ := h
      rfl
  | capture =>
      obtain ⟨paths, rfl⟩ := h
      rfl
  | body =>
      obtain ⟨expect, -, trees, rfl⟩ := h
      rfl
  | _ => cases transcript <;> simp [Transcript.overlooked] at hmem

/-- Streams that were read were read up to the deadline of the step. -/
theorem deadline_of_exchange {deadline : ℕ} {collected : List Collected} {u : σ}
    (hexchange : runner.exchange step.toStepFields scope s =
      .ok (.streams deadline collected) u) :
    deadline = readDeadline runner step.toStepFields := by
  obtain ⟨started, s', -, hkind⟩ := Effects.bind_eq_ok_iff.mp hexchange
  have hheaders : Block.headers ∈ (Transcript.streams deadline collected).overlooked := by
    simp [Transcript.overlooked]
  obtain ⟨hasks, hstreams⟩ := streams_of_overlooked step hkind hheaders
  rw [exchangeKind_of_streams hasks hstreams, streamExchange] at hkind
  obtain ⟨request, v, -, hkind⟩ := Effects.bind_eq_ok_iff.mp hkind
  obtain ⟨scripts, w, -, hkind⟩ := Effects.bind_eq_ok_iff.mp hkind
  cases hgathered : gathered step.toStepFields scripts with
  | error e =>
      rw [hgathered] at hkind
      cases hkind
  | ok read =>
      rw [hgathered] at hkind
      cases hkind
      rfl

/-- A stream block that counts is read by its bound. -/
theorem keepsBound_of_counts {transcript : Transcript} {u : σ}
    (hcounts : step.Declares .stream → runner.Counts step.toStepFields scope s .stream)
    (hexchange : runner.exchange step.toStepFields scope s = .ok transcript u)
    (hrun : runner.runStep step.toStepFields scope s = .ok r t) (hpass : r.1.result = .pass) :
    runner.KeepsBound step.toStepFields := by
  intro block hblock hzero
  have hdeclares : step.Declares .stream := by simp [StepFields.Declares, Option.mem_def.mp hblock]
  obtain ⟨deadline, collected, rfl, -, hbound⟩ :=
    holds_of_counts (hcounts hdeclares) hdeclares hexchange hrun hpass block hblock
  have hdeadline : readDeadline runner step.toStepFields ≤ 0 := by
    rw [← deadline_of_exchange hexchange]
    exact (hbound 0 hzero).1
  have hnone : declaredTimeout step.expectStream = none := by
    rw [declaredTimeout, Option.mem_def.mp hblock, Option.bind_some, hzero]
    rfl
  rw [readDeadline, hnone, Option.getD_none] at hdeadline
  exact Nat.le_zero.mp hdeadline

/-- The blocks a passing step declares all count exactly when it declares none of those
the runner does not look at, and no stream bound that counts as none. -/
theorem declared_blocks_count_iff (step : Step)
    (hrun : runner.runStep step.toStepFields scope s = .ok r t) (hpass : r.1.result = .pass) :
    ∃ transcript u, runner.exchange step.toStepFields scope s = .ok transcript u ∧
      ((∀ block, step.Declares block → runner.Counts step.toStepFields scope s block) ↔
        (∀ block ∈ transcript.overlooked, ¬ step.Declares block) ∧
          runner.KeepsBound step.toStepFields) := by
  obtain ⟨transcript, u, hexchange, -⟩ := holds_of_pass step hrun hpass
  refine ⟨transcript, u, hexchange, ?_, ?_⟩
  · intro hall
    refine ⟨?_, keepsBound_of_counts (hall .stream) hexchange hrun hpass⟩
    intro block hmem hdeclares
    exact not_counts_of_overlooked hexchange hrun hpass hmem hdeclares (hall block hdeclares)
  · rintro ⟨hnone, hkept⟩ block hdeclares other hvaries transcript' u' r' t' hexchange' hrun' hpass'
    obtain ⟨transcript'', u'', hfound, hholds⟩ := holds_of_pass other hrun' hpass'
    obtain rfl : transcript'' = transcript' := by
      rw [hfound] at hexchange'
      cases hexchange'
      rfl
    refine hholds block (declares_of_varies hvaries) ?_ ?_
    · intro hmem
      rw [exchange_of_varies hvaries hmem, hexchange] at hfound
      cases hfound
      exact hnone block hmem hdeclares
    · rintro rfl
      exact keepsBound_of_varies hvaries hkept

end Counting

end Runner

section Examples

/-- What a dispatcher makes of a streaming request that is answered with an error. -/
def refusal : Exception :=
  .streamNotOpened "expected an event stream, got application/json"
    { status := 500, error := some { message := "Task not found" } }

/-- A runner whose agent refuses every stream. -/
def refusingRunner : Runner Unit :=
  { droppingRunner with
    openStreams := fun _ _ _ s => (fun _ => { events := [], ending := .raised refusal }, s) }

/-- A runner whose agent opens every stream, and sends one event. -/
def streamingRunner : Runner Unit :=
  { droppingRunner with
    openStreams := fun _ _ _ s =>
      (fun _ => { events := [{ index := 0, data := .object [], status := some 200 }],
                  ending := .closed }, s) }

/-- A runner whose agent closes its stream after five seconds. -/
def slowRunner : Runner Unit :=
  { droppingRunner with
    openStreams := fun _ _ deadline s =>
      (fun _ =>
        { events := [{ index := 0, data := .object [], status := some 200 }],
          ending := if deadline < 5000 then .stalled else .closed }, s) }

/-- A subscription that has to be refused with 404. -/
def subscriptionNotFound : Step where
  id := "follow"
  operation := some .subscribeToTask
  expect := some { status := .int 404 }
  expectError := some
    { message := .object [("exists", .bool true)], knownErrorName := knownErrorName_null }
  idNonempty := by decide
  exactlyOneKind := by decide
  fieldsMatchTheKind := by
    constructor <;> simp [StepFields.kind, StepFields.plans]

/-- A subscription whose response has to carry a header. -/
def tracedSubscription : Step where
  id := "follow"
  operation := some .subscribeToTask
  expect := some { headers := some [("x-trace", .object [("exists", .bool true)])] }
  idNonempty := by decide
  exactlyOneKind := by decide
  fieldsMatchTheKind := by
    constructor <;> simp [StepFields.kind, StepFields.plans]

/-- No list of streams is declared, so none is empty. -/
theorem streamsNonempty_none : ∀ plans ∈ (none : Option (List StreamPlan)), plans ≠ [] := by simp

/-- No count is declared, so none is out of order. -/
theorem countsAreConsistent_none : ∀ low ∈ (none : Option ℕ), ∀ high ∈ (none : Option ℕ),
    low ≤ high := by simp

/-- A subscription whose stream may not take any time. -/
def instantSubscription : Step where
  id := "follow"
  operation := some .subscribeToTask
  expectStream := some
    { timeoutMs := some 0
      countsAreConsistent := countsAreConsistent_none
      streamsNonempty := streamsNonempty_none }
  idNonempty := by decide
  exactlyOneKind := by decide
  fieldsMatchTheKind := by
    constructor <;> simp [StepFields.kind, StepFields.plans]

/-- A refusal with 500 passes for one with 404, a stream passes without the header asked
for, and one of five seconds passes for one of none. -/
theorem mismatched_blocks_pass :
    (∃ r t transcript u, refusingRunner.runStep subscriptionNotFound.toStepFields
        (refusingRunner.initialScope Dict.empty) () = .ok r t ∧ r.1.result = .pass ∧
      refusingRunner.exchange subscriptionNotFound.toStepFields
        (refusingRunner.initialScope Dict.empty) () = .ok transcript u ∧
      subscriptionNotFound.Declares .status ∧ transcript.statuses = [some 500] ∧
      ¬ refusingRunner.Holds subscriptionNotFound.toStepFields r.2 transcript .status) ∧
    (∃ r t transcript u, streamingRunner.runStep tracedSubscription.toStepFields
        (streamingRunner.initialScope Dict.empty) () = .ok r t ∧ r.1.result = .pass ∧
      streamingRunner.exchange tracedSubscription.toStepFields
        (streamingRunner.initialScope Dict.empty) () = .ok transcript u ∧
      tracedSubscription.Declares .headers ∧
      ¬ streamingRunner.Holds tracedSubscription.toStepFields r.2 transcript .headers) ∧
    ∃ r t transcript u, slowRunner.runStep instantSubscription.toStepFields
        (slowRunner.initialScope Dict.empty) () = .ok r t ∧ r.1.result = .pass ∧
      slowRunner.exchange instantSubscription.toStepFields
        (slowRunner.initialScope Dict.empty) () = .ok transcript u ∧
      instantSubscription.Declares .stream ∧
      ¬ slowRunner.Holds instantSubscription.toStepFields r.2 transcript .stream := by
  refine ⟨?_, ?_, ?_⟩
  · refine ⟨_, _, .refused refusal, _, rfl, rfl, rfl, ⟨_, rfl, rfl⟩, rfl, ?_⟩
    intro hholds
    obtain ⟨code, hcode, s, result, t, hrun, hclean⟩ :=
      hholds _ rfl _ (List.mem_singleton.mpr rfl)
    cases hcode
    cases hrun
    exact List.cons_ne_nil _ _ hclean
  · refine ⟨_, _, _, _, rfl, rfl, rfl, ⟨_, rfl, Option.some_ne_none _⟩, ?_⟩
    intro hholds
    obtain ⟨response, hresponse, -⟩ := hholds _ rfl _ rfl
    cases hresponse
  · refine ⟨_, _, _, _, rfl, rfl, rfl, Option.some_ne_none _, ?_⟩
    intro hholds
    obtain ⟨deadline, collected, htranscript, -, hbound⟩ := hholds _ rfl
    cases htranscript
    exact absurd (hbound 0 rfl).1 (by decide)

/-- The status beside the refused stream is a block that does not count. -/
theorem subscriptionNotFound_overlooks :
    ¬ ∀ block, subscriptionNotFound.Declares block →
      refusingRunner.Counts subscriptionNotFound.toStepFields
        (refusingRunner.initialScope Dict.empty) () block := by
  obtain ⟨transcript, u, hexchange, hiff⟩ :=
    Runner.declared_blocks_count_iff subscriptionNotFound
      (show refusingRunner.runStep subscriptionNotFound.toStepFields
        (refusingRunner.initialScope Dict.empty) () = .ok _ _ from rfl) rfl
  intro hall
  cases hexchange
  have hmem : Block.status ∈ (Transcript.refused refusal).overlooked := by
    simp [Transcript.overlooked]
  exact (hiff.mp hall).1 .status hmem ⟨_, rfl, rfl⟩

end Examples

end A2aItk.Acts
