import A2aItk.Acts.PassingSteps
import A2aItk.Acts.StreamBounds

/-!
# Streams that are not read to their end

The runner stops one event past `max_count`. What it has read by then fails already, and
so would the rest.
-/

namespace A2aItk.Acts

open Python

section Judged

variable {block : ExpectStream} {plan : Option StreamPlan} {disconnectAfter : Option ℕ}

/-- What a stream is to be judged on: the events up to the disconnect, or all. -/
def judged (plan : Option StreamPlan) (events : List StreamEvent) : List StreamedEvent :=
  (readUpTo (plan.bind StreamPlan.disconnectAfter) events).map fun event =>
    .normalize event.data event.index

/-- The two limits are applied one after the other. -/
theorem readUpTo_readLimit {α : Type*} (events : List α) :
    readUpTo (Runner.readLimit (some block) disconnectAfter) events =
      readUpTo (block.maxCount.map (· + 1)) (readUpTo disconnectAfter events) := by
  unfold Runner.readLimit
  rw [Option.bind_some]
  cases block.maxCount with
  | none => cases disconnectAfter <;> rfl
  | some high =>
      cases disconnectAfter with
      | none => rfl
      | some d => exact List.take_take.symm

/-- What is kept of a stream is what it is to be judged on, or there are too many events
either way. -/
theorem kept_or_over {script : StreamScript} {one : Runner.Collected}
    (hclosed : script.ending = .closed)
    (h : Runner.collect script (some block) (plan.bind StreamPlan.disconnectAfter) = .ok one) :
    one.timedOut = false ∧
      (one.events = judged plan script.events ∨
        ∃ high ∈ block.maxCount, high < one.events.length ∧
          high < (judged plan script.events).length) := by
  rw [collect_of_closed hclosed] at h
  obtain ⟨⟨⟩, -, hone⟩ := bind_eq_ok_iff.mp h
  cases hone
  refine ⟨rfl, ?_⟩
  dsimp only
  rw [readUpTo_readLimit, judged]
  generalize readUpTo (plan.bind StreamPlan.disconnectAfter) script.events = events
  cases hmax : block.maxCount with
  | none => exact .inl rfl
  | some high =>
      by_cases hover : events.length ≤ high + 1
      · left
        rw [readUpTo_of_le]
        intro n hn
        cases hn
        exact hover
      · right
        refine ⟨high, rfl, ?_⟩
        rw [List.length_map, List.length_map, length_readUpTo, Option.map_some, Option.elim_some]
        omega

end Judged

section Verdicts

variable {py : Interpreter} {block : ExpectStream} {plan : Option StreamPlan}
  {events : List StreamedEvent} {timedOut : Bool}

/-- What one stream comes to: the shared block, and then its own plan. -/
def evaluatePlanned (py : Interpreter) (block : ExpectStream) (plan : Option StreamPlan)
    (events : List StreamedEvent) (timedOut : Bool) : Except Exception AssertionResult := do
  let shared ← evaluateStream py block.toStreamAssertions events timedOut
  let own ← plan.elim (pure .pass) fun p => evaluateStream py p.toStreamAssertions events false
  pure (shared + own)

/-- The runner judges a stream so, and its status besides. -/
theorem evaluateCollected_eq_planned {σ : Type} {runner : Runner σ} {step : StepFields}
    {scope : Scope} (hblock : step.expectStream = some block) (one : Runner.Collected) :
    runner.evaluateCollected step scope plan one =
      Effects.lift (evaluatePlanned runner.py block plan one.events one.timedOut) >>=
        fun result =>
      runner.evaluateStreamStatus step scope one.status one.events.length >>= fun status =>
      pure (result + status) := by
  have hshared : Runner.sharedCheck runner step one =
      evaluateStream runner.py block.toStreamAssertions one.events one.timedOut := by
    rw [Runner.sharedCheck, hblock]
  rw [Runner.evaluateCollected_eq, hshared]
  unfold evaluatePlanned Runner.planCheck
  cases evaluateStream runner.py block.toStreamAssertions one.events one.timedOut with
  | error e => rfl
  | ok shared =>
      cases plan.elim (pure .pass) fun p =>
          evaluateStream runner.py p.toStreamAssertions one.events false with
      | error e => rfl
      | ok own => rfl

theorem clean_shared_of_planned (h : Clean (evaluatePlanned py block plan events timedOut)) :
    Clean (evaluateStream py block.toStreamAssertions events timedOut) := by
  obtain ⟨result, hresult, hclean⟩ := h
  obtain ⟨shared, hshared, hresult⟩ := bind_eq_ok_iff.mp hresult
  obtain ⟨own, -, hresult⟩ := bind_eq_ok_iff.mp hresult
  cases hresult
  exact ⟨shared, hshared, (List.append_eq_nil_iff.mp hclean).1⟩

/-- Nothing passes that has too many events. -/
theorem not_clean_of_over {high : ℕ} (hmax : high ∈ block.maxCount)
    (hover : high < events.length) :
    ¬Clean (evaluateStream py block.toStreamAssertions events timedOut) := by
  intro h
  have hcount := (countsHold_of_clean h).notTooMany high hmax
  omega

theorem clean_iff_ok {check : Except Exception AssertionResult} {result : AssertionResult}
    (h : check = .ok result) : Clean check ↔ result.ok = true := by
  rw [AssertionResult.ok, List.isEmpty_iff]
  constructor
  · rintro ⟨result', hresult', hclean⟩
    cases h.symm.trans hresult'
    exact hclean
  · exact fun hclean => ⟨result, h, hclean⟩

/-- Of a stream that closes in time the runner keeps enough: the shared block, and the
shared block with the plan, pass or fail as they would on all that the stream is to be
judged on. Where the shared block passes, nothing was cut. -/
theorem early_stop_keeps_verdict {script : StreamScript} {one : Runner.Collected}
    (hclosed : script.ending = .closed)
    (h : Runner.collect script (some block) (plan.bind StreamPlan.disconnectAfter) = .ok one) :
    (Clean (evaluateStream py block.toStreamAssertions one.events one.timedOut) ↔
      Clean (evaluateStream py block.toStreamAssertions (judged plan script.events) false)) ∧
    (Clean (evaluatePlanned py block plan one.events one.timedOut) ↔
      Clean (evaluatePlanned py block plan (judged plan script.events) false)) ∧
    (∀ result result',
      evaluatePlanned py block plan one.events one.timedOut = .ok result →
      evaluatePlanned py block plan (judged plan script.events) false = .ok result' →
      result.ok = result'.ok) ∧
    (Clean (evaluateStream py block.toStreamAssertions one.events one.timedOut) →
      one.events = judged plan script.events) := by
  obtain ⟨htime, hsame | ⟨high, hmax, hkept, hwhole⟩⟩ := kept_or_over hclosed h
  · rw [htime, hsame]
    refine ⟨Iff.rfl, Iff.rfl, fun result result' hresult hresult' => ?_, fun _ => rfl⟩
    rw [Except.ok.inj (hresult.symm.trans hresult')]
  · have hnone : ¬Clean (evaluateStream py block.toStreamAssertions one.events one.timedOut) :=
      not_clean_of_over hmax hkept
    have hnone' : ¬Clean (evaluateStream py block.toStreamAssertions
        (judged plan script.events) false) := not_clean_of_over hmax hwhole
    have hboth : Clean (evaluatePlanned py block plan one.events one.timedOut) ↔
        Clean (evaluatePlanned py block plan (judged plan script.events) false) :=
      iff_of_false (fun hclean => hnone (clean_shared_of_planned hclean))
        fun hclean => hnone' (clean_shared_of_planned hclean)
    refine ⟨iff_of_false hnone hnone', hboth, fun result result' hresult hresult' => ?_,
      fun hclean => absurd hclean hnone⟩
    rw [Bool.eq_iff_iff, ← clean_iff_ok hresult, ← clean_iff_ok hresult']
    exact hboth

/-- At most one event is allowed, and the stream has three. -/
def oneAtMost : ExpectStream where
  maxCount := some 1
  countsAreConsistent := by simp
  streamsNonempty := by simp

def threeEvents : StreamScript where
  events := [⟨0, .null, none⟩, ⟨1, .null, none⟩, ⟨2, .null, none⟩]
  ending := .closed

theorem oneAtMost_keeps_verdict :
    ∃ one, Runner.collect threeEvents (some oneAtMost) none = .ok one ∧
      (Clean (evaluatePlanned .plain oneAtMost none one.events one.timedOut) ↔
        Clean (evaluatePlanned .plain oneAtMost none (judged none threeEvents.events) false)) :=
  ⟨_, rfl, (@early_stop_keeps_verdict .plain oneAtMost none threeEvents _ rfl rfl).2.1⟩

end Verdicts

end A2aItk.Acts
