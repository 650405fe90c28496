import A2aItk.Acts.ConformanceResults
import A2aItk.Acts.SerialRuns
import A2aItk.Acts.Verdicts

/-!
# Runs over several bindings

`run_acts.py`: one conformance run for each binding that was asked for, and one exit code for
all of them.

## Implementation notes

What `argparse` refuses by itself (neither target, or both; a binding it does not know) cannot
be written down here. The printed texts are left out.
-/

namespace A2aItk.Acts

open Python

namespace RunActs

/-- A choice of `--transport`. -/
inductive Choice
  | binding (b : TransportBinding)
  | all
  deriving DecidableEq

/-- `ALL_BINDINGS`. -/
def allBindings : List TransportBinding := [.jsonrpc, .grpc, .rest]

/-- `_bindings`: which bindings to run, de-duplicated and in a stable order. -/
def bindings (requested : List Choice) : List TransportBinding :=
  if requested.isEmpty then [.jsonrpc]
  else if .all ∈ requested then allBindings
  else allBindings.filter fun b => .binding b ∈ requested

/-- `--mount` with the resolved path, or `--sut-url`. -/
inductive Target
  | mount (path : String) (isDir : Bool)
  | sutUrl (url : String)

/-- The address that was given, if one was. -/
def Target.url : Target → Option String
  | mount _ _ => none
  | sutUrl url => some url

/-- The times of the run over a binding. -/
structure Stamp where
  durationMs : ℤ
  generatedAt : String

/-- The command line, with what its files come to. -/
structure Arguments where
  target : Target
  reducedSutUrl : Option String := none
  authSutUrl : Option String := none
  sdk : String
  sdkVersion : String := "unknown"
  language : String := "unknown"
  repository : Option String := none
  transports : List Choice := []
  tests : List String := []
  noGate : Bool := false
  noCodegen : Bool := false
  /-- Whether `--behaviors` names the contract file. -/
  namesBehaviors : Bool := false
  suite : Except Exception LoadedSuite
  behaviors : Except String (Option (List String)) := .ok none
  environment : Dict String String
  stamp : TransportBinding → Stamp

/-- Whether a URL was given that is not empty. -/
def given (url : Option String) : Bool := (url.getD "") ≠ ""

/-- The address begins like one of HTTP. -/
def isHttpUrl (url : String) : Bool :=
  "http://".toList.isPrefixOf url.toList || "https://".toList.isPrefixOf url.toList

namespace Arguments

variable (args : Arguments)

/-- The first URL that is no HTTP URL, and its flag. -/
def badUrl : Option (String × String) :=
  [("--sut-url", args.target.url), ("--reduced-sut-url", args.reducedSutUrl),
    ("--auth-sut-url", args.authSutUrl)].findSome? fun (flag, url) =>
      (url.filter fun text => !isHttpUrl text).map (flag, ·)

/-- What `parser.error` is called with. -/
def refused : Option String :=
  if args.target.url.isNone && (given args.reducedSutUrl || given args.authSutUrl) then
    some "--reduced-sut-url and --auth-sut-url need --sut-url"
  else match args.badUrl with
    | some (flag, url) =>
        some (flag ++ " must be an http:// or https:// URL, got " ++ Text.repr url)
    | none =>
        if args.namesBehaviors && args.noGate then
          some "--behaviors and --no-gate contradict each other"
        else match args.target with
          | .mount path false => some ("--mount " ++ path ++ " is not a directory")
          | _ => none

/-- The environment once the mount is set. -/
def environ (before : Dict String String) : Dict String String :=
  match args.target with
  | .mount path _ => before.set "ITK_MOUNT_DIR" path
  | .sutUrl _ => before

/-- The call of `acts_runner.run`. -/
def request (binding : TransportBinding) : RunRequest where
  transport := binding
  sutUrl := args.target.url
  suite := args.suite
  testIds := args.tests
  gateOnBehaviors := !args.noGate
  behaviors := args.behaviors
  deviationUrls := deviationUrls args.reducedSutUrl args.authSutUrl

/-- The report of a run. -/
def toReport (result : ActsRun) : Except PyError Value :=
  let stamp := args.stamp result.transport
  Acts.toReport {
    sdkName := args.sdk
    sdkVersion := args.sdkVersion
    language := args.language
    repository := args.repository
    environment := args.environment
    durationMs := stamp.durationMs
    generatedAt := stamp.generatedAt } result

end Arguments

/-- How the command ends, and the reports it shows and writes. -/
structure Exit where
  code : ℕ
  reports : List Value := []

section Main

variable {σ : Type} (harness : Harness σ) (args : Arguments)
  (generateProtos : String → σ → Option Exception × σ)

/-- The loop over the bindings: the reports, unless an `ActsRunError` ends it. -/
def reports : List TransportBinding → EStateM RunFailure (World σ) (Option (List Value))
  | [] => pure (some [])
  | binding :: rest => do
      match ← Effects.attempt (harness.run (args.request binding)) with
      | .error (.noApplicableTests _) => reports rest
      | .error (.actsRunError _) => pure none
      | .error (.raised e) => throw (.raised e)
      | .ok result => do
          let report ← Effects.lift (Except.mapError (.raised ∘ .builtin) (args.toReport result))
          let others ← reports rest
          pure (others.map (report :: ·))

/-- The exit code of the reports: conformance is their conjunction. -/
def exitOf : Option (List Value) → Except RunFailure Exit
  | none => .ok { code := 2 }
  | some [] => .ok { code := 2 }
  | some (report :: rest) => Except.mapError (.raised ∘ .builtin) do
      let conformant ← (report :: rest).allM Report.isConformant
      pure { code := if conformant then 0 else 1, reports := report :: rest }

/-- The stubs of a mounted agent, which nothing has generated yet. -/
def codegen : EStateM RunFailure (World σ) Unit :=
  match args.target with
  | .sutUrl _ => pure ()
  | .mount path _ =>
      if args.noCodegen then pure ()
      else do
        match ← Harness.outside (generateProtos path) with
        | some e => throw (.raised e)
        | none => pure ()

/-- `main`. -/
def main : EStateM RunFailure (World σ) Exit := do
  match args.refused with
  | some _ => pure { code := 2 }
  | none => do
      Effects.update fun w => (PUnit.unit, { w with environ := args.environ w.environ })
      codegen args generateProtos
      let outcome ← reports harness args (bindings args.transports)
      Effects.lift (exitOf outcome)

end Main

end RunActs

section Applicable

variable {σ : Type} (harness : Harness σ)

/-- Not the one exception that a run over several bindings goes on after. -/
def RunFailure.Stops (e : RunFailure) : Prop := ∀ message, e ≠ .noApplicableTests message

theorem stops_raised (e : Exception) : (RunFailure.raised e).Stops := fun _ h => by cases h

theorem stops_actsRunError (message : String) : (RunFailure.actsRunError message).Stops :=
  fun _ h => by cases h

namespace Harness

theorem raisesOnly_inside {α : Type} (x : EStateM Exception σ α) :
    Effects.RaisesOnly RunFailure.Stops (inside x) := by
  intro w e t h
  unfold inside at h
  split at h
  · cases h
  · cases h
    exact stops_raised _

theorem raisesOnly_outside {α : Type} (f : σ → α × σ) :
    Effects.RaisesOnly RunFailure.Stops (outside f) := fun _ _ _ h => by cases h

theorem raisesOnly_emit (event : Event) :
    Effects.RaisesOnly RunFailure.Stops (emit event : EStateM RunFailure (World σ) PUnit) :=
  fun _ _ _ h => by cases h

theorem raisesOnly_get :
    Effects.RaisesOnly RunFailure.Stops (get : EStateM RunFailure (World σ) (World σ)) :=
  fun _ _ _ h => by cases h

theorem raisesOnly_fetchAgentCard (baseUrl : String) :
    Effects.RaisesOnly RunFailure.Stops (harness.fetchAgentCard baseUrl) := by
  apply (raisesOnly_outside _).bind
  intro reply
  cases reply with
  | card v => exact .pure _ v
  | failed text => exact .throw (stops_actsRunError _)
  | raised e => exact .throw (stops_raised e)

theorem stops_interfaceFor {card : Value} {binding : TransportBinding} {e : RunFailure}
    (h : harness.interfaceFor card binding = .error e) : e.Stops := by
  unfold interfaceFor at h
  split at h
  · cases h
    exact stops_raised _
  · split at h
    · cases h
      exact stops_raised _
    · cases h
      exact stops_actsRunError _
  · rcases except_bind_eq_error_iff.mp h with h | ⟨url, -, h⟩
    · obtain ⟨e', -, rfl⟩ := mapError_eq_error_iff.mp h
      exact stops_raised _
    · split at h
      · cases h
        exact stops_actsRunError _
      · cases h

theorem stops_buildDispatcher {card : Value} {binding : TransportBinding} {baseUrl : String}
    {e : RunFailure} (h : harness.buildDispatcher card binding baseUrl = .error e) : e.Stops := by
  rcases except_bind_eq_error_iff.mp h with h | ⟨url, -, h⟩
  · exact harness.stops_interfaceFor h
  · cases binding <;> cases h

theorem raisesOnly_webhookReceiver {α : Type} {block : Option ℕ → EStateM RunFailure (World σ) α}
    (hblock : ∀ receiver, Effects.RaisesOnly RunFailure.Stops (block receiver)) :
    Effects.RaisesOnly RunFailure.Stops (harness.webhookReceiver block) := by
  apply (raisesOnly_outside _).bind
  intro reply
  cases reply with
  | error e => exact .throw (stops_raised e)
  | ok port =>
      apply (raisesOnly_emit _).bind
      intro _
      apply (raisesOnly_outside _).bind
      intro spawned
      cases spawned with
      | some e => exact .throw (stops_raised e)
      | none =>
          apply (raisesOnly_emit _).bind
          intro _
          apply Effects.RaisesOnly.ensuring
          apply (raisesOnly_outside _).bind
          intro polled
          cases polled with
          | error e => exact .throw (stops_raised e)
          | ok up => exact hblock _

/-- A pass at an address raises only what stops a run. -/
theorem raisesOnly_runAt (context : PassContext) (suite : LoadedSuite) (baseUrl : String) :
    Effects.RaisesOnly RunFailure.Stops (harness.runAt context suite baseUrl) := by
  apply (harness.raisesOnly_fetchAgentCard baseUrl).bind
  intro card
  apply (Effects.RaisesOnly.lift fun e he => harness.stops_buildDispatcher he).bind
  intro dispatcher
  apply Effects.RaisesOnly.ensuring
  apply harness.raisesOnly_webhookReceiver
  intro receiver
  apply raisesOnly_get.bind
  intro w
  apply (raisesOnly_inside _).bind
  exact fun results => .pure _ _

/-- So does a pass that launches its process. -/
theorem raisesOnly_runPass (context : PassContext) (pass : Option Pass) (suite : LoadedSuite)
    (sutUrl : Option String) :
    Effects.RaisesOnly RunFailure.Stops (harness.runPass context pass suite sutUrl) := by
  cases sutUrl with
  | some url => exact harness.raisesOnly_runAt context suite url
  | none =>
      apply Effects.RaisesOnly.ensuring
      apply Effects.RaisesOnly.bind
      · apply raisesOnly_get.bind
        intro w
        apply (raisesOnly_emit _).bind
        intro _
        apply (raisesOnly_outside _).bind
        intro reply
        cases reply with
        | up port => exact .pure _ _
        | failed text => exact .throw (stops_actsRunError _)
        | raised e => exact .throw (stops_raised e)
      · exact fun baseUrl => harness.raisesOnly_runAt context suite baseUrl

/-- So does a deviation. -/
theorem raisesOnly_deviate (context : PassContext) (request : RunRequest) (suite : LoadedSuite)
    (results : List TestResult) (pass : Pass) :
    Effects.RaisesOnly RunFailure.Stops
      (harness.deviate context request suite results pass) := by
  have hpass : ∀ narrowed sutUrl, Effects.RaisesOnly RunFailure.Stops
      (harness.deviatedPass context pass narrowed sutUrl) := by
    intro narrowed sutUrl
    unfold deviatedPass
    dsimp only
    split
    · exact (harness.raisesOnly_runPass context (some pass) narrowed sutUrl).within _ _
    · exact harness.raisesOnly_runPass context (some pass) narrowed sutUrl
  unfold deviate
  dsimp only
  split
  · exact .pure _ results
  · unfold rerunDeviation
    dsimp only
    split
    · exact .pure _ results
    · refine Effects.RaisesOnly.handle (hpass _ _) ?_ ?_
      · rintro ⟨rerun, card⟩
        apply Effects.RaisesOnly.lift
        intro e he
        rw [judged] at he
        split at he
        · cases he
          exact stops_raised _
        · cases he
        · cases he
      · intro e hstops
        apply Effects.RaisesOnly.lift
        intro e' he
        rw [judged] at he
        split at he
        · cases he
        · cases he
          exact hstops

/-- The passes of a run raise anything but `NoApplicableTests`. -/
theorem raisesOnly_passes (request : RunRequest) (suite : LoadedSuite)
    (declared : Option (List String)) :
    Effects.RaisesOnly RunFailure.Stops (harness.passes request suite declared) := by
  apply (harness.raisesOnly_runPass _ none suite request.sutUrl).bind
  rintro ⟨results, card⟩
  have hround := harness.raisesOnly_deviate (contextOf request declared) request suite
  apply Effects.RaisesOnly.bind
  · apply (hround results .reduced).bind
    intro middle
    apply (hround middle .auth).bind
    exact fun last => .pure _ last
  · exact fun last => .pure _ _

/-- Whether a run grades anything is decided by its corpus alone, before it starts an agent. -/
theorem run_noApplicable {request : RunRequest} {message : String} {w t : World σ}
    (h : harness.run request w = .error (.noApplicableTests message) t) :
    t = w ∧ ∃ loaded, request.suite = .ok loaded ∧ graded request loaded = [] := by
  rcases Effects.bind_eq_error_iff.mp h with hlift | ⟨⟨suite, declared⟩, w', -, hpasses⟩
  · obtain ⟨hprepared, rfl⟩ := Effects.lift_apply_eq_error_iff.mp hlift
    exact ⟨rfl, graded_eq_nil hprepared⟩
  · exact absurd rfl (harness.raisesOnly_passes request suite declared w' _ t hpasses message)

end Harness

end Applicable

namespace RunActs

section Verdict

variable {σ : Type} (harness : Harness σ) (args : Arguments)
  (generateProtos : String → σ → Option Exception × σ)

/-- Whether the corpus has a test for the binding among those that were asked for. -/
def targets (loaded : LoadedSuite) (binding : TransportBinding) : Bool :=
  !(Harness.graded (args.request binding) loaded).isEmpty

/-- The runs behind the reports of a loop over these bindings: what `run` returned for each
binding that the corpus has a test for. -/
structure Reported (loaded : LoadedSuite) (todo : List TransportBinding) (runs : List ActsRun)
    (collected : List Value) : Prop where
  transports : runs.map ActsRun.transport = todo.filter (targets args loaded)
  ran : ∀ run ∈ runs, ∃ w₁ w₂, harness.run (args.request run.transport) w₁ = .ok run w₂
  graded : ∀ run ∈ runs, Harness.GradedRun (args.request run.transport) loaded run
  reports : List.Forall₂ (fun run report => args.toReport run = .ok report) runs collected

variable {harness args}

/-- A binding that is no target is left out. -/
theorem Reported.skip {loaded : LoadedSuite} {binding : TransportBinding}
    {todo : List TransportBinding} {runs : List ActsRun} {collected : List Value}
    (h : Reported harness args loaded todo runs collected)
    (hnone : targets args loaded binding = false) :
    Reported harness args loaded (binding :: todo) runs collected where
  transports := by rw [h.transports, List.filter_cons_of_neg (by simp [hnone])]
  ran := h.ran
  graded := h.graded
  reports := h.reports

/-- A binding that has run is reported. -/
theorem Reported.report {loaded : LoadedSuite} {todo : List TransportBinding} {run : ActsRun}
    {runs : List ActsRun} {report : Value} {collected : List Value}
    (h : Reported harness args loaded todo runs collected)
    (hran : ∃ w₁ w₂, harness.run (args.request run.transport) w₁ = .ok run w₂)
    (hrun : Harness.GradedRun (args.request run.transport) loaded run)
    (hreport : args.toReport run = .ok report) :
    Reported harness args loaded (run.transport :: todo) (run :: runs) (report :: collected) where
  transports := by
    have htargets : targets args loaded run.transport = true := by
      rw [targets, ← hrun.tests, Bool.not_eq_true', List.isEmpty_eq_false_iff]
      exact hrun.nonempty
    rw [List.map_cons, h.transports, List.filter_cons_of_pos htargets]
  ran := by
    rw [List.forall_mem_cons]
    exact ⟨hran, h.ran⟩
  graded := by
    rw [List.forall_mem_cons]
    exact ⟨hrun, h.graded⟩
  reports := .cons hreport h.reports

variable (harness)

/-- What the first binding does to a loop that returns: it is left out, or it ends the loop, or
its report stands before those of the others. -/
theorem reports_cons_cases {binding : TransportBinding} {rest : List TransportBinding}
    {w t : World σ} {collected : Option (List Value)}
    (h : reports harness args (binding :: rest) w = .ok collected t) :
    (∃ message w', harness.run (args.request binding) w = .error (.noApplicableTests message) w' ∧
        reports harness args rest w' = .ok collected t) ∨
      (∃ message w', harness.run (args.request binding) w = .error (.actsRunError message) w' ∧
        collected = none) ∨
      ∃ run report w' others, harness.run (args.request binding) w = .ok run w' ∧
        args.toReport run = .ok report ∧ reports harness args rest w' = .ok others t ∧
        collected = others.map (report :: ·) := by
  obtain ⟨outcome, w', hattempt, h⟩ := Effects.bind_eq_ok_iff.mp h
  cases outcome with
  | error e =>
      rw [Effects.attempt_apply_eq_error_iff] at hattempt
      cases e with
      | noApplicableTests message => exact .inl ⟨message, w', hattempt, h⟩
      | actsRunError message =>
          cases h
          exact .inr (.inl ⟨message, _, hattempt, rfl⟩)
      | raised e => cases h
  | ok run =>
      rw [Effects.attempt_apply_eq_ok_iff] at hattempt
      obtain ⟨report, w₁, hlift, hrest⟩ := Effects.bind_eq_ok_iff.mp h
      obtain ⟨others, w₂, hothers, hpure⟩ := Effects.bind_eq_ok_iff.mp hrest
      obtain ⟨hreport, rfl⟩ := Effects.lift_apply_eq_ok_iff.mp hlift
      cases hpure
      exact .inr (.inr ⟨run, report, _, others, hattempt, mapError_eq_ok_iff.mp hreport, hothers,
        rfl⟩)

/-- A loop that is not ended has graded every binding the corpus has a test for. -/
theorem reported_of_reports {loaded : LoadedSuite} (hloaded : args.suite = .ok loaded)
    {todo : List TransportBinding} {w t : World σ} {collected : List Value}
    (h : reports harness args todo w = .ok (some collected) t) :
    ∃ runs, Reported harness args loaded todo runs collected := by
  induction todo generalizing w collected with
  | nil =>
      cases h
      exact ⟨[], rfl, by simp, by simp, .nil⟩
  | cons binding rest ih =>
      rcases reports_cons_cases harness h with ⟨message, w', hskipped, hrest⟩ |
        ⟨message, w', -, hnone⟩ | ⟨run, report, w', others, hran, hreport, hrest, hcollected⟩
      · obtain ⟨runs, hruns⟩ := ih hrest
        obtain ⟨-, loaded', hloaded', hnone⟩ := harness.run_noApplicable hskipped
        cases hloaded.symm.trans hloaded'
        exact ⟨runs, hruns.skip (by rw [targets, hnone]; rfl)⟩
      · cases hnone
      · cases others with
        | none => cases hcollected
        | some others =>
            cases hcollected
            obtain ⟨runs, hruns⟩ := ih hrest
            obtain ⟨loaded', hloaded', hrun⟩ := harness.gradedRun_of_run _ _ _ _ hran
            cases hloaded.symm.trans hloaded'
            have htransport : run.transport = binding := hrun.transport
            subst htransport
            exact ⟨run :: runs, hruns.report ⟨w, w', hran⟩ hrun hreport⟩

/-- A loop that has gone past a binding has loaded the corpus. -/
theorem loaded_of_reports {binding : TransportBinding} {rest : List TransportBinding}
    {w t : World σ} {collected : List Value}
    (h : reports harness args (binding :: rest) w = .ok (some collected) t) :
    ∃ loaded, args.suite = .ok loaded := by
  rcases reports_cons_cases harness h with ⟨message, w', hskipped, -⟩ |
    ⟨message, w', -, hnone⟩ | ⟨run, report, w', others, hran, -⟩
  · obtain ⟨-, loaded, hloaded, -⟩ := harness.run_noApplicable hskipped
    exact ⟨loaded, hloaded⟩
  · cases hnone
  · obtain ⟨loaded, hloaded, -⟩ := harness.gradedRun_of_run _ _ _ _ hran
    exact ⟨loaded, hloaded⟩

/-- A loop with a report to show has loaded the corpus. -/
theorem reported_of_graded {todo : List TransportBinding} {w t : World σ} {report : Value}
    {rest : List Value} (h : reports harness args todo w = .ok (some (report :: rest)) t) :
    ∃ loaded runs, args.suite = .ok loaded ∧ runs ≠ [] ∧
      Reported harness args loaded todo runs (report :: rest) := by
  cases todo with
  | nil => cases h
  | cons binding others =>
      obtain ⟨loaded, hloaded⟩ := loaded_of_reports harness h
      obtain ⟨runs, hruns⟩ := reported_of_reports harness hloaded h
      refine ⟨loaded, runs, hloaded, fun hnil => ?_, hruns⟩
      have hreports := hruns.reports
      rw [hnil] at hreports
      cases hreports

/-- What ends the loop. -/
theorem error_of_reports {todo : List TransportBinding} {w t : World σ}
    (h : reports harness args todo w = .ok none t) :
    ∃ binding ∈ todo, ∃ w₁ message w₂,
      harness.run (args.request binding) w₁ = .error (.actsRunError message) w₂ := by
  induction todo generalizing w with
  | nil => cases h
  | cons binding rest ih =>
      have hlater {w₁ : World σ} (hrest : reports harness args rest w₁ = .ok none t) :
          ∃ other ∈ binding :: rest, ∃ w₁ message w₂,
            harness.run (args.request other) w₁ = .error (.actsRunError message) w₂ := by
        obtain ⟨other, hmem, hother⟩ := ih hrest
        exact ⟨other, List.mem_cons_of_mem _ hmem, hother⟩
      rcases reports_cons_cases harness h with ⟨message, w', -, hrest⟩ |
        ⟨message, w', hfailed, -⟩ | ⟨run, report, w', others, -, -, hrest, hcollected⟩
      · exact hlater hrest
      · exact ⟨binding, List.mem_cons_self, w, message, w', hfailed⟩
      · cases others with
        | none => exact hlater hrest
        | some others => cases hcollected

/-- The conjunction of the reports' verdicts is that of the results. -/
theorem allM_isConformant {runs : List ActsRun} {collected : List Value}
    (h : List.Forall₂ (fun run report => args.toReport run = .ok report) runs collected) :
    collected.allM Report.isConformant =
      .ok (runs.all fun run => isConformant run.results) := by
  induction h with
  | nil => rfl
  | cons hreport _ ih =>
      rw [List.allM, Report.isConformant_build hreport, ok_bind, List.all_cons, ih]
      cases isConformant _ <;> rfl

/-- The exit code of one invocation that returns, and what is behind it. With 2 it shows nothing:
it refused its command line, or the corpus has no test for any binding, or the run over a binding
failed, which discards the reports before it. Otherwise there is a report for each binding that
the corpus has a test for, in a fixed order, of what `run` returned for it: one result for each
such test. The exit code is 0 just when no `must` test failed over any of them. -/
theorem main_verdict :
    Effects.ReturnsOnly (fun exit : Exit =>
      (exit.code = 2 ∧ exit.reports = [] ∧
        (args.refused.isSome ∨
          (∀ loaded, args.suite = .ok loaded →
            ∀ binding ∈ bindings args.transports, targets args loaded binding = false) ∨
          ∃ binding ∈ bindings args.transports, ∃ w₁ message w₂,
            harness.run (args.request binding) w₁ = .error (.actsRunError message) w₂)) ∨
      ∃ loaded runs, args.suite = .ok loaded ∧ runs ≠ [] ∧
        Reported harness args loaded (bindings args.transports) runs exit.reports ∧
        ((exit.code = 0 ∧ ∀ run ∈ runs, ∀ r ∈ run.results, r.level = .must →
            r.result = .pass ∨ r.result = .skip) ∨
          exit.code = 1 ∧ ∃ run ∈ runs, ∃ r ∈ run.results, r.level = .must ∧
            r.result ≠ .pass ∧ r.result ≠ .skip))
      (main harness args generateProtos) := by
  intro w exit t h
  unfold main at h
  cases hrefused : args.refused with
  | some message =>
      rw [hrefused] at h
      cases h
      exact .inl ⟨rfl, rfl, .inl rfl⟩
  | none =>
      rw [hrefused] at h
      obtain ⟨-, w₁, -, h⟩ := Effects.bind_eq_ok_iff.mp h
      obtain ⟨-, w₂, -, h⟩ := Effects.bind_eq_ok_iff.mp h
      obtain ⟨outcome, w₃, hreports, h⟩ := Effects.bind_eq_ok_iff.mp h
      obtain ⟨hexit, -⟩ := Effects.lift_apply_eq_ok_iff.mp h
      cases outcome with
      | none =>
          cases hexit
          exact .inl ⟨rfl, rfl, .inr (.inr (error_of_reports harness hreports))⟩
      | some collected =>
          cases collected with
          | nil =>
              cases hexit
              refine .inl ⟨rfl, rfl, .inr (.inl fun loaded hloaded binding hbinding => ?_)⟩
              obtain ⟨runs, hruns⟩ := reported_of_reports harness hloaded hreports
              cases hruns.reports
              have hfiltered := hruns.transports
              rw [List.map_nil, eq_comm, List.filter_eq_nil_iff] at hfiltered
              exact Bool.eq_false_iff.mpr (hfiltered binding hbinding)
          | cons report rest =>
              obtain ⟨loaded, runs, hloaded, hne, hruns⟩ := reported_of_graded harness hreports
              have hverdict := allM_isConformant hruns.reports
              rw [exitOf, hverdict, ok_bind] at hexit
              cases hexit
              refine .inr ⟨loaded, runs, hloaded, hne, hruns, ?_⟩
              cases hall : runs.all fun run => isConformant run.results with
              | true =>
                  rw [List.all_eq_true] at hall
                  exact .inl ⟨rfl, fun run hrun => (isConformant_iff _).mp (hall run hrun)⟩
              | false =>
                  rw [List.all_eq_false] at hall
                  obtain ⟨run, hrun, hfailed⟩ := hall
                  rw [isConformant_iff] at hfailed
                  push Not at hfailed
                  obtain ⟨r, hr, hlevel, hpass, hskip⟩ := hfailed
                  exact .inr ⟨rfl, run, hrun, r, hr, hlevel, hpass, hskip⟩

end Verdict

section Isolation

variable {σ : Type} (harness : Harness σ) (args : Arguments)
  (generateProtos : String → σ → Option Exception × σ)

/-- The events of one binding's run: a run of its own in this environment, with nothing left
running and no port of a receiver kept. -/
def Isolated (environ : Dict String String) (starts : Bool) (events : List Event) : Prop :=
  ∃ m, Transition.run (Monitor.step environ starts) {} events = some m ∧ m.sut = none ∧
    m.receiver = none ∧ m.served = none

/-- What the runs over some bindings do to the world. -/
def Isolates (starts : Bool) (n : ℕ) (w t : World σ) : Prop :=
  t.environ = w.environ ∧ ∃ segments : List (List Event), segments.length ≤ n ∧
    t.log = w.log ++ segments.flatten ∧ ∀ seg ∈ segments, Isolated w.environ starts seg

variable {harness args}

/-- Nothing was started. -/
theorem Isolates.quiet (starts : Bool) (n : ℕ) {w t : World σ} (henviron : t.environ = w.environ)
    (hlog : t.log = w.log) : Isolates starts n w t :=
  ⟨henviron, [], Nat.zero_le n, by simpa using hlog, by simp⟩

theorem Isolates.after {starts : Bool} {n : ℕ} {w u t : World σ} (henviron : u.environ = w.environ)
    (hlog : u.log = w.log) (h : Isolates starts n u t) : Isolates starts n w t := by
  rw [Isolates, henviron, hlog] at h
  exact h

theorem Isolates.cons {starts : Bool} {n : ℕ} {w u t : World σ} {events : List Event}
    (henviron : u.environ = w.environ) (hlog : u.log = w.log ++ events)
    (hevents : Isolated w.environ starts events) (h : Isolates starts n u t) :
    Isolates starts (n + 1) w t := by
  obtain ⟨henviron', segments, hlength, hlog', hsegments⟩ := h
  refine ⟨henviron'.trans henviron, events :: segments, Nat.succ_le_succ hlength, ?_, ?_⟩
  · rw [hlog', hlog, List.flatten_cons, List.append_assoc]
  · rw [List.forall_mem_cons]
    rw [henviron] at hsegments
    exact ⟨hevents, hsegments⟩

variable (harness args)

end Isolation

end RunActs

end A2aItk.Acts
