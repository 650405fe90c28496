import A2aItk.Acts.SkipReasons

/-!
# What the deviation passes change

One pass puts a new result in the place of those it reruns and leaves the others
as they are. Two of them in sequence change only what they claim, as long as the
second reruns no test the first has already rerun.
-/

namespace A2aItk.Acts

open Python

namespace Pass

variable (beyond : Char → Bool) (pass : Pass)

/-- A claimed result is a skip. -/
theorem skip_of_claims {r : TestResult} (h : pass.claims beyond r) : r.result = .skip := by
  apply r.skipOfReason
  rw [claims, search_isSome_iff] at h
  cases hreason : r.skipReason with
  | none =>
      rw [hreason] at h
      exact absurd h (pass.not_occurs_nil beyond)
  | some reason => rfl

theorem map_fst_matching (results : List TestResult) :
    (results.filterMap fun r =>
      (pass.search beyond (r.skipReason.getD "")).map fun captured => (r.id, captured)).map
        Prod.fst =
      (results.filter fun r => (pass.search beyond (r.skipReason.getD "")).isSome).map
        fun r => r.id := by
  induction results with
  | nil => rfl
  | cons r rest ih =>
      cases hsearch : pass.search beyond (r.skipReason.getD "") with
      | none => simpa [hsearch] using ih
      | some captured => simpa [hsearch] using ih

/-- The tests a pass may rerun are those whose result it claims. -/
theorem mem_blocked_iff {results : List TestResult}
    (hids : (results.map fun r => r.id).Nodup) {r : TestResult} (hr : r ∈ results) :
    r.id ∈ (pass.skipsMatching beyond results).keys ↔ pass.claims beyond r := by
  have hkeys := pass.map_fst_matching beyond results
  have hnodup : ((results.filter fun r =>
      (pass.search beyond (r.skipReason.getD "")).isSome).map fun r => r.id).Nodup :=
    hids.sublist (List.filter_sublist.map _)
  have hentries := Dict.entries_ofList_of_nodup (hkeys ▸ hnodup)
  rw [skipsMatching, Dict.keys, hentries, hkeys, List.mem_map]
  constructor
  · rintro ⟨r', hr', hid⟩
    obtain ⟨hmem, hclaims⟩ := List.mem_filter.mp hr'
    obtain rfl := List.inj_on_of_nodup_map hids hmem hr hid
    exact hclaims
  · intro hclaims
    exact ⟨r, List.mem_filter.mpr ⟨hr, hclaims⟩, rfl⟩

end Pass

namespace Deployment

variable (beyond : Char → Bool) (deployment : Deployment) (suite : List Test)

/-- The pass puts `r'` in the place of `r`. -/
def Replaces (pass : Pass) (results : List TestResult) (r r' : TestResult) : Prop :=
  deployment.available pass = true ∧ ∃ card verdict,
    deployment.runPass pass (narrowed beyond suite pass results) = .ran card verdict ∧
    pass.tookEffect card (pass.skipsMatching beyond results).values = .ok none ∧
    (replacement pass (narrowed beyond suite pass results) verdict).get? r.id = some r'

/-- If the pass is run, it raises nothing but an `ActsRunError`, and the card of its
SUT can be read. -/
def Finishes (pass : Pass) (results : List TestResult) : Prop :=
  deployment.available pass = true →
    (pass.skipsMatching beyond results).entries.isEmpty = false →
    (∀ e, deployment.runPass pass (narrowed beyond suite pass results) ≠ .raised e) ∧
    ∀ card verdict e,
      deployment.runPass pass (narrowed beyond suite pass results) = .ran card verdict →
      pass.tookEffect card (pass.skipsMatching beyond results).values ≠ .error e

section Step

variable {deployment suite} {pass : Pass} {results : List TestResult}

theorem mem_replacement {tests : List Test} {verdict : ℕ → Verdict} {id : String}
    {r : TestResult} (h : (replacement pass tests verdict).get? id = some r) :
    r.id = id ∧ r.configuration = some pass.envVar ∧ ∃ test ∈ tests, test.id = id := by
  have hmem := Dict.mem_of_get?_ofList h
  rw [List.mem_mapIdx] at hmem
  obtain ⟨i, hi, hentry⟩ := hmem
  obtain ⟨hid, hr⟩ := Prod.mk.inj hentry
  subst hr
  exact ⟨hid, rfl, tests[i], List.getElem_mem hi, hid⟩

/-- What a pass puts in place of a result: the same test, under the pass's
configuration. -/
theorem Replaces.stamped {r r' : TestResult}
    (h : deployment.Replaces beyond suite pass results r r') :
    r'.id = r.id ∧ r'.configuration = some pass.envVar := by
  obtain ⟨-, card, verdict, -, -, hget⟩ := h
  obtain ⟨hid, hconfiguration, -⟩ := mem_replacement hget
  exact ⟨hid, hconfiguration⟩

/-- A pass replaces only what it claims. -/
theorem Replaces.claims {r r' : TestResult} (hids : (results.map fun r => r.id).Nodup)
    (hr : r ∈ results) (h : deployment.Replaces beyond suite pass results r r') :
    pass.claims beyond r := by
  obtain ⟨-, card, verdict, -, -, hget⟩ := h
  obtain ⟨-, -, test, htest, hid⟩ := mem_replacement hget
  have hblocked := (List.mem_filter.mp htest).2
  rw [decide_eq_true_eq, hid] at hblocked
  exact (pass.mem_blocked_iff beyond hids hr).mp hblocked

/-- No pass has two results for one test. -/
theorem Replaces.unique {r r₁ r₂ : TestResult}
    (h₁ : deployment.Replaces beyond suite pass results r r₁)
    (h₂ : deployment.Replaces beyond suite pass results r r₂) : r₁ = r₂ := by
  obtain ⟨-, card₁, verdict₁, hran₁, -, hget₁⟩ := h₁
  obtain ⟨-, card₂, verdict₂, hran₂, -, hget₂⟩ := h₂
  obtain ⟨rfl, rfl⟩ := PassOutcome.ran.inj (hran₁.symm.trans hran₂)
  exact Option.some.inj (hget₁.symm.trans hget₂)

theorem narrowed_of_isEmpty
    (h : (pass.skipsMatching beyond results).entries.isEmpty = true) :
    narrowed beyond suite pass results = [] := by
  have hentries := List.isEmpty_iff.mp h
  simp [narrowed, Dict.keys, hentries]

/-- A round returns exactly when its pass finishes. -/
theorem deviate_returns_iff :
    (∃ after, deployment.deviate beyond suite pass results = .ok after) ↔
      deployment.Finishes beyond suite pass results := by
  unfold deviate Finishes
  cases havailable : deployment.available pass with
  | false => simp
  | true =>
      simp only [if_true, rerunDeviation, true_implies]
      cases hempty : (pass.skipsMatching beyond results).entries.isEmpty with
      | true => simp
      | false =>
          simp only [Bool.false_eq_true, if_false, true_implies]
          cases hrun : deployment.runPass pass (narrowed beyond suite pass results) with
          | actsRunError => simp
          | raised e => simp
          | ran card verdict =>
              simp only [ne_eq, reduceCtorEq, not_false_eq_true, implies_true, true_and,
                PassOutcome.ran.injEq, and_imp]
              cases heffect : pass.tookEffect card
                  (pass.skipsMatching beyond results).values with
              | error e =>
                  refine iff_of_false (by simp) fun h => ?_
                  exact h card verdict e rfl rfl heffect
              | ok refused =>
                  refine iff_of_true ?_ ?_
                  · cases refused <;> exact ⟨_, rfl⟩
                  · rintro card' verdict' e rfl rfl
                    simp [heffect]

/-- A round leaves every result its pass does not replace as it is. -/
theorem deviate_spec {after : List TestResult}
    (h : deployment.deviate beyond suite pass results = .ok after) :
    ∃ f : TestResult → TestResult, after = results.map f ∧ ∀ r,
      deployment.Replaces beyond suite pass results r (f r) ∨
        f r = r ∧ ∀ r', ¬ deployment.Replaces beyond suite pass results r r' := by
  have hunchanged (hno : ∀ r r', ¬ deployment.Replaces beyond suite pass results r r')
      (heq : (Except.ok results : Except Exception _) = .ok after) :
      ∃ f : TestResult → TestResult, after = results.map f ∧ ∀ r,
        deployment.Replaces beyond suite pass results r (f r) ∨
          f r = r ∧ ∀ r', ¬ deployment.Replaces beyond suite pass results r r' :=
    ⟨id, by rw [List.map_id, Except.ok.inj heq], fun r => .inr ⟨rfl, hno r⟩⟩
  unfold deviate at h
  cases havailable : deployment.available pass with
  | false =>
      rw [havailable] at h
      apply hunchanged _ h
      intro r r' hreplaces
      rw [hreplaces.1] at havailable
      cases havailable
  | true =>
      rw [havailable, if_pos rfl] at h
      unfold rerunDeviation at h
      cases hempty : (pass.skipsMatching beyond results).entries.isEmpty with
      | true =>
          simp only [hempty, if_true] at h
          apply hunchanged _ h
          rintro r r' ⟨-, card, verdict, -, -, hget⟩
          rw [narrowed_of_isEmpty beyond hempty] at hget
          cases hget
      | false =>
          simp only [hempty, Bool.false_eq_true, if_false] at h
          cases hrun : deployment.runPass pass (narrowed beyond suite pass results) with
          | actsRunError =>
              rw [hrun] at h
              apply hunchanged _ h
              rintro r r' ⟨-, card, verdict, hran, -⟩
              cases hrun.symm.trans hran
          | raised e =>
              rw [hrun] at h
              cases h
          | ran card verdict =>
              simp only [hrun] at h
              cases heffect : pass.tookEffect card
                  (pass.skipsMatching beyond results).values with
              | error e =>
                  rw [heffect] at h
                  cases h
              | ok refused =>
                  rw [heffect] at h
                  cases refused with
                  | some reason =>
                      apply hunchanged _ h
                      rintro r r' ⟨-, card', verdict', hran, heffect', -⟩
                      obtain ⟨rfl, rfl⟩ := PassOutcome.ran.inj (hrun.symm.trans hran)
                      cases heffect.symm.trans heffect'
                  | none =>
                      refine ⟨_, (Except.ok.inj h).symm, fun r => ?_⟩
                      cases hget : (replacement pass (narrowed beyond suite pass results)
                          verdict).get? r.id with
                      | some r' =>
                          exact .inl ⟨havailable, card, verdict, hrun, heffect, hget⟩
                      | none =>
                          refine .inr ⟨rfl, ?_⟩
                          rintro r' ⟨-, card', verdict', hran, -, hget'⟩
                          obtain ⟨rfl, rfl⟩ := PassOutcome.ran.inj (hrun.symm.trans hran)
                          cases hget.symm.trans hget'

end Step

section Run

/-- Every result is of the same test as before, and one that differs was a skip that
a pass claims and carries the configuration of that pass. -/
def OnlyClaimed (results final : List TestResult) : Prop :=
  List.Forall₂ (fun r r' => r'.id = r.id ∧ (r' = r ∨ ∃ pass ∈ Pass.all,
    r.result = .skip ∧ pass.claims beyond r ∧ r'.configuration = some pass.envVar))
    results final

/-- A rerun of the reduced pass is itself skipped for want of authentication, and the
auth pass runs the test once more, though it had no claim on the first result. -/
def RerunTwice (results mid : List TestResult) : Prop :=
  ∃ r ∈ results, ¬ Pass.auth.claims beyond r ∧ ∃ first second,
    deployment.Replaces beyond suite .reduced results r first ∧
    Pass.auth.claims beyond first ∧
    deployment.Replaces beyond suite .auth mid first second ∧ second ≠ r

/-- Each pass finishes, and none reruns what the other has rerun. -/
def Undisturbed (results : List TestResult) : Prop :=
  deployment.Finishes beyond suite .reduced results ∧
    ∀ mid, deployment.deviate beyond suite .reduced results = .ok mid →
      deployment.Finishes beyond suite .auth mid ∧
        ¬ deployment.RerunTwice beyond suite results mid

variable {deployment suite} {results mid final : List TestResult}

theorem onlyClaimed_map_iff {f : TestResult → TestResult} :
    OnlyClaimed beyond results (results.map f) ↔ ∀ r ∈ results,
      (f r).id = r.id ∧ (f r = r ∨ ∃ pass ∈ Pass.all,
        r.result = .skip ∧ pass.claims beyond r ∧
          (f r).configuration = some pass.envVar) := by
  rw [OnlyClaimed, List.forall₂_map_right_iff, List.forall₂_same]

theorem claims_auth_of_configuration {r r' : TestResult}
    (hconfiguration : r'.configuration = some Pass.auth.envVar)
    (h : ∃ pass ∈ Pass.all, r.result = .skip ∧ pass.claims beyond r ∧
      r'.configuration = some pass.envVar) : Pass.auth.claims beyond r := by
  obtain ⟨pass, -, -, hclaims, henv⟩ := h
  cases pass with
  | auth => exact hclaims
  | reduced =>
      have henvs : Pass.auth.envVar = Pass.reduced.envVar :=
        Option.some.inj (hconfiguration.symm.trans henv)
      exact absurd henvs (by decide)

/-- Two rounds change only what they claim exactly when no test is rerun twice. -/
theorem onlyClaimed_iff (hids : (results.map fun r => r.id).Nodup)
    (hmid : deployment.deviate beyond suite .reduced results = .ok mid)
    (hfinal : deployment.deviate beyond suite .auth mid = .ok final) :
    OnlyClaimed beyond results final ↔ ¬ deployment.RerunTwice beyond suite results mid := by
  obtain ⟨f, rfl, hf⟩ := deviate_spec beyond hmid
  obtain ⟨g, rfl, hg⟩ := deviate_spec beyond hfinal
  have hfid (r : TestResult) : (f r).id = r.id := by
    cases hf r with
    | inl hfirst => exact hfirst.stamped.1
    | inr hsame => rw [hsame.1]
  have hgid (r : TestResult) : (g r).id = r.id := by
    cases hg r with
    | inl hsecond => exact hsecond.stamped.1
    | inr hsame => rw [hsame.1]
  have hmids : ((results.map f).map fun r => r.id).Nodup := by
    have hcomp : (fun r : TestResult => r.id) ∘ f = fun r => r.id := funext hfid
    rwa [List.map_map, hcomp]
  rw [List.map_map, onlyClaimed_map_iff]
  constructor
  · rintro honly ⟨r, hr, hnot, first, second, hfirst, -, hsecond, hne⟩
    obtain rfl : f r = first := by
      cases hf r with
      | inl hreplaced => exact hreplaced.unique beyond hfirst
      | inr hsame => exact absurd hfirst (hsame.2 first)
    obtain rfl : g (f r) = second := by
      cases hg (f r) with
      | inl hreplaced => exact hreplaced.unique beyond hsecond
      | inr hsame => exact absurd hsecond (hsame.2 second)
    cases (honly r hr).2 with
    | inl hsame => exact hne hsame
    | inr hclaimed =>
        exact hnot (claims_auth_of_configuration beyond hsecond.stamped.2 hclaimed)
  · intro hnot r hr
    refine ⟨(hgid (f r)).trans (hfid r), ?_⟩
    cases hf r with
    | inl hfirst =>
        have hreduced := hfirst.claims beyond hids hr
        cases hg (f r) with
        | inl hsecond =>
            have hauth := hsecond.claims beyond hmids (List.mem_map_of_mem hr)
            by_cases hsame : g (f r) = r
            · exact .inl hsame
            · by_cases horiginal : Pass.auth.claims beyond r
              · exact .inr ⟨.auth, by decide, Pass.skip_of_claims beyond _ horiginal,
                  horiginal, hsecond.stamped.2⟩
              · exact absurd ⟨r, hr, horiginal, f r, g (f r), hfirst, hauth, hsecond, hsame⟩ hnot
        | inr hkept =>
            refine .inr ⟨.reduced, by decide, Pass.skip_of_claims beyond _ hreduced, hreduced, ?_⟩
            rw [Function.comp_apply, hkept.1]
            exact hfirst.stamped.2
    | inr hkept =>
        rw [Function.comp_apply, hkept.1]
        cases hg r with
        | inl hsecond =>
            have hmem : r ∈ results.map f := List.mem_map.mpr ⟨r, hr, hkept.1⟩
            have hauth := hsecond.claims beyond hmids hmem
            exact .inr ⟨.auth, by decide, Pass.skip_of_claims beyond _ hauth, hauth,
              hsecond.stamped.2⟩
        | inr hsame => exact .inl hsame.1

/-- The passes return, and change only what they claim, exactly when they are
undisturbed. -/
theorem applyDeviations_iff (hids : (results.map fun r => r.id).Nodup) :
    (∃ final, deployment.applyDeviations beyond suite results = .ok final ∧
      OnlyClaimed beyond results final) ↔
      deployment.Undisturbed beyond suite results := by
  have hrun (final : List TestResult) :
      deployment.applyDeviations beyond suite results = .ok final ↔
        ∃ mid, deployment.deviate beyond suite .reduced results = .ok mid ∧
          deployment.deviate beyond suite .auth mid = .ok final := by
    simp only [applyDeviations, Pass.all, List.foldlM_cons, List.foldlM_nil, bind_eq_ok_iff,
      pure_eq_ok, Except.ok.injEq, exists_eq_right]
  constructor
  · rintro ⟨final, hfinal, honly⟩
    obtain ⟨mid, hmid, hfinal⟩ := (hrun final).mp hfinal
    refine ⟨(deviate_returns_iff beyond).mp ⟨mid, hmid⟩, ?_⟩
    intro mid' hmid'
    obtain rfl := Except.ok.inj (hmid.symm.trans hmid')
    exact ⟨(deviate_returns_iff beyond).mp ⟨final, hfinal⟩,
      (onlyClaimed_iff beyond hids hmid hfinal).mp honly⟩
  · rintro ⟨hreduced, hauth⟩
    obtain ⟨mid, hmid⟩ := (deviate_returns_iff beyond).mpr hreduced
    obtain ⟨hfinishes, hnot⟩ := hauth mid hmid
    obtain ⟨final, hfinal⟩ := (deviate_returns_iff beyond).mpr hfinishes
    exact ⟨final, (hrun final).mpr ⟨mid, hmid, hfinal⟩,
      (onlyClaimed_iff beyond hids hmid hfinal).mpr hnot⟩

end Run

end Deployment

section Reasons

variable (py : Interpreter) (beyond : Char → Bool) (gate : Gate) (suite : List Test)

/-- Every skip reason the runner gives is claimed by no pass but the one meant for
the branch that gave it. -/
def ReasonsApart : Prop :=
  ∀ test ∈ suite, ∀ branch, gate.skipBranch py test.toTestFields = .ok (some branch) →
    ∀ pass : Pass, (pass.search beyond (branch.text py)).isSome = true →
      branch.meant = some pass

/-- No text that the suite or the card supplies to a skip reason is worded like a
reason of a pass that is not meant for it. -/
def SuppliedTextsApart : Prop :=
  ∀ test ∈ suite, ∀ branch, gate.skipBranch py test.toTestFields = .ok (some branch) →
    ∀ pass : Pass, branch.meant ≠ some pass →
      (pass.search beyond (branch.embedded py)).isSome = false

theorem reasonsApart_iff :
    ReasonsApart py beyond gate suite ↔ SuppliedTextsApart py beyond gate suite := by
  constructor
  · intro h test htest branch hbranch pass hforeign
    rw [← Bool.not_eq_true, ← branch.claimed_text_iff py beyond pass hforeign]
    exact fun hclaimed => hforeign (h test htest branch hbranch pass hclaimed)
  · intro h test htest branch hbranch pass hclaimed
    by_contra hforeign
    rw [branch.claimed_text_iff py beyond pass hforeign] at hclaimed
    rw [h test htest branch hbranch pass hforeign] at hclaimed
    cases hclaimed

end Reasons

/-- The passes change only what they claim, and claim only what is meant for them,
exactly when they are undisturbed and the texts of the suite and the card keep clear of
their wording. -/
theorem deviations_apart_iff (py : Interpreter) (beyond : Char → Bool) (gate : Gate)
    (deployment : Deployment) (suite : List Test) (results : List TestResult)
    (hids : (results.map fun r => r.id).Nodup) :
    ((∃ final, deployment.applyDeviations beyond suite results = .ok final ∧
        Deployment.OnlyClaimed beyond results final) ∧ ReasonsApart py beyond gate suite) ↔
      deployment.Undisturbed beyond suite results ∧
        SuppliedTextsApart py beyond gate suite :=
  and_congr (Deployment.applyDeviations_iff beyond hids) (reasonsApart_iff py beyond gate suite)

section Borrowed

/-- A step that reads a task. -/
def readStep : Step where
  id := "read"
  operation := some .getTask
  idNonempty := by decide
  exactlyOneKind := by decide
  fieldsMatchTheKind := by constructor <;> simp [StepFields.kind, StepFields.repliesGiven]

theorem not_uses_readStep (requirement : RunnerRequirement) :
    ¬ TestFields.Uses requirement readStep := by
  cases requirement <;> simp [TestFields.Uses, readStep, StepFields.kind, StepFields.plans]

/-- A test for agents that neither stream nor go unauthenticated. -/
def guardedTest : Test where
  id := "CORE-CAP-002"
  name := "an agent without streaming refuses to stream"
  level := .must
  preconditions := some
    { capabilities := some [("streaming", .bool false)], authentication := some true }
  steps := [readStep]
  idNonempty := by decide
  stepsNonempty := by simp
  stepIdsAreUnique := by simp
  rawOnlyNamesTransport := fun _ => ⟨readStep, by simp, by decide⟩
  declaresRunnerFeatures := by simp [not_uses_readStep]

/-- A test for agents with a skill whose id is worded like a skip of the auth pass. -/
def wordedSkillTest : Test where
  id := "SKILL-001"
  name := "an agent with the skill answers"
  level := .may
  preconditions := some
    { skills := some [[("id", .str "agent card authentication=False, needs True")]] }
  steps := [readStep]
  idNonempty := by decide
  stepsNonempty := by simp
  stepIdsAreUnique := by simp
  rawOnlyNamesTransport := fun _ => ⟨readStep, by simp, by decide⟩
  declaresRunnerFeatures := by simp [not_uses_readStep]

/-- An agent that streams and asks for no credential. -/
def openGate : Gate where
  binding := .jsonrpc
  agentCard := some (.object [("capabilities", .object [("streaming", .bool true)])])
  capabilities := []

/-- The first run skips the guarded test over streaming. -/
def guardedSkip : TestResult :=
  guardedTest.resultOf
    { result := .skip
      durationMs := 0
      skipReason := some "agent card capability streaming=True, needs False" }

/-- The reduced SUT asks for no credential, so the test is skipped again. -/
def reducedVerdict : Verdict where
  result := .skip
  durationMs := 0
  skipReason := some "agent card authentication=False, needs True"

/-- The SUTs of the two passes enter their modes. -/
def bothDeviate : Deployment where
  runPass
    | .reduced, _ => .ran (.object [("capabilities", .object [])]) fun _ => reducedVerdict
    | .auth, _ =>
        .ran (.object [("securitySchemes", .list [.str "bearer"]),
          ("securityRequirements", .list [.str "bearer"])])
          fun _ => { result := .pass, durationMs := 0 }

/-- What the results of the run hold in the end. -/
def guardedFinal : TestResult :=
  { guardedTest.resultOf { result := .pass, durationMs := 0 } with
    configuration := some Pass.auth.envVar }

theorem deviations_apart_iff_guarded :
    ((∃ final, bothDeviate.applyDeviations (fun _ => false) [guardedTest] [guardedSkip] =
          .ok final ∧ Deployment.OnlyClaimed (fun _ => false) [guardedSkip] final) ∧
        ReasonsApart .plain (fun _ => false) openGate [guardedTest]) ↔
      bothDeviate.Undisturbed (fun _ => false) [guardedTest] [guardedSkip] ∧
        SuppliedTextsApart .plain (fun _ => false) openGate [guardedTest] :=
  deviations_apart_iff .plain (fun _ => false) openGate bothDeviate [guardedTest] [guardedSkip]
    (by decide)

/-- A result ends up under the configuration of a pass that had no claim on it, and a
skill's id is taken for a skip of the auth pass. -/
theorem guarded_rerun_twice :
    (∃ final, bothDeviate.applyDeviations (fun _ => false) [guardedTest] [guardedSkip] =
          .ok final ∧ ¬ Deployment.OnlyClaimed (fun _ => false) [guardedSkip] final) ∧
      ¬ ReasonsApart .plain (fun _ => false) openGate [wordedSkillTest] := by
  constructor
  · refine ⟨[guardedFinal], rfl, ?_⟩
    rintro (_ | ⟨⟨-, hchange⟩, -⟩)
    cases hchange with
    | inl hsame => cases congrArg TestResult.configuration hsame
    | inr hclaimed =>
        have hauth := Deployment.claims_auth_of_configuration (fun _ => false) rfl hclaimed
        have hnot : ¬ Pass.auth.claims (fun _ => false) guardedSkip := by
          unfold Pass.claims
          decide
        exact hnot hauth
  · intro h
    have hmeant := h wordedSkillTest (by simp)
      (.skills ["agent card authentication=False, needs True"]) rfl .auth (by decide)
    cases hmeant

end Borrowed

end A2aItk.Acts
