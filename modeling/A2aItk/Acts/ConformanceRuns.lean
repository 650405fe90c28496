import A2aItk.Acts.Corpus
import A2aItk.Acts.Deviations
import A2aItk.Acts.Report
import A2aItk.Acts.TestRuns
import A2aItk.Python.Monitors

/-!
# Conformance runs

`acts_runner.py`: one agent is started, interrogated and stopped, and then once more for each
deviation that some skipped tests are waiting for.

## Implementation notes

The outside of a run is a state `σ` that the harness acts on: the agents, the network, the
webhook receiver's process. What a child process inherits is the `environ` of the moment it
is started in. `Event`s are what the harness does to the outside, in order.
-/

namespace A2aItk.Acts

open Python Scenarios

/-- `ActsRunError`, its subclass `NoApplicableTests`, and everything else. -/
inductive RunFailure
  | actsRunError (message : String)
  | noApplicableTests (message : String)
  | raised (e : Exception)

/-- What `except ActsRunError` catches. -/
def RunFailure.isActsRunError : RunFailure → Bool
  | raised _ => false
  | _ => true

/-- What a run does to the outside. The first SUT is not deviated. -/
inductive Event
  | startSut (pass : Option Pass) (environ : Dict String String)
  | stopSut (pass : Option Pass)
  | reservePort (port : ℕ)
  | startReceiver (port : ℕ)
  | stopReceiver (port : ℕ)
  | releasePort (port : ℕ)
  | closeDispatcher

/-- The world of a run: `os.environ`, the events so far and the outside. -/
structure World (σ : Type) where
  environ : Dict String String
  log : List Event
  outside : σ

/-- What `Cluster.start_all` reports of the one target. -/
inductive Launch
  | up (httpPort : ℕ)
  | failed (text : String)
  | raised (e : Exception)

/-- What a GET of the agent card comes to. A text is that of an `HTTPError` or a `ValueError`. -/
inductive CardReply
  | card (v : Value)
  | failed (text : String)
  | raised (e : Exception)

/-- What the harness is given by its surroundings. -/
structure Harness (σ : Type) where
  py : Interpreter
  /-- `str.upper`. -/
  upper : String → String
  /-- Whether a character beyond ASCII belongs to a word. -/
  beyond : Char → Bool
  startSut : Option Pass → Dict String String → σ → Launch × σ
  readCard : String → σ → CardReply × σ
  /-- A runner that speaks through the dispatcher of a binding, its target and the base URL
  of the agent card. -/
  connect : TransportBinding → String → String → Runner σ
  freePort : σ → Except Exception ℕ × σ
  startReceiver : ℕ → σ → Option Exception × σ
  /-- Whether the receiver answers within its attempts. -/
  pollReceiver : ℕ → σ → Except Exception Bool × σ
  readWebhook : ℕ → String → EStateM Exception σ (List Value)

/-- The arguments of `run`, with what its files come to. -/
structure RunRequest where
  transport : TransportBinding
  sutUrl : Option String := none
  suite : Except Exception LoadedSuite
  testIds : List String := []
  vars : Dict String Value := Dict.empty
  capabilities : List RunnerRequirement := []
  gateOnBehaviors : Bool := true
  /-- The prefixes the contract file declares, or the text of a `BehaviorsFileError`. -/
  behaviors : Except String (Option (List String)) := .ok none
  deviationUrls : Dict String String := Dict.empty

/-- `ActsRun`, without its times. -/
structure ActsRun where
  results : List TestResult
  suite : LoadedSuite
  transport : TransportBinding
  agentCard : Value
  declaredBehaviors : Option (List String)
  externalSut : Bool

/-- What a report says besides what the run came to. -/
structure ReportInfo where
  sdkName : String
  sdkVersion : String := "unknown"
  language : String := "unknown"
  repository : Option String := none
  environment : Dict String String
  durationMs : ℤ
  generatedAt : String

/-- What `to_report` passes on. -/
def ReportInfo.of (info : ReportInfo) (result : ActsRun) : Report.Info :=
  let fields := [("name", info.sdkName), ("version", info.sdkVersion), ("language", info.language)]
  let repository := ((info.repository.filter (· ≠ "")).map fun url => ("repository", url)).toList
  { sdk := Dict.ofList (fields ++ repository)
    transport := result.transport
    durationMs := info.durationMs
    environment :=
      if result.externalSut then info.environment.set "sut" "external" else info.environment
    generatedAt := info.generatedAt }

/-- `to_report`. -/
def toReport (info : ReportInfo) (result : ActsRun) : Except PyError Value :=
  Report.build result.results result.suite (info.of result)

/-- The deviated instances that have a URL. -/
def deviationUrls (reducedSutUrl authSutUrl : Option String) : Dict String String :=
  Dict.ofList <| [(Pass.reduced, reducedSutUrl), (Pass.auth, authSutUrl)].filterMap
    fun (pass, url) => (url.filter (· ≠ "")).map (pass.envVar, ·)

namespace Harness

section Card

variable {σ : Type} (harness : Harness σ)

/-- `_CARD_BINDING`: protocol bindings as the agent card spells them. -/
def cardBinding : String → Option TransportBinding
  | "JSONRPC" => some .jsonrpc
  | "GRPC" => some .grpc
  | "HTTP_JSON" => some .rest
  | "HTTP+JSON" => some .rest
  | "REST" => some .rest
  | _ => none

/-- `card.get('supportedInterfaces') or []`, as the loops go through it. -/
def interfaces (card : Value) : Except PyError (List Value) := do
  let listed ← card.getOr "supportedInterfaces" .null
  (orEmptyList listed).iterate

/-- The interfaces of a binding, in the order of the card. -/
def candidates (card : Value) (binding : TransportBinding) : Except PyError (List Value) := do
  let items ← interfaces card
  items.filterM fun item => do
    let name ← item.getOr "protocolBinding" (.str "")
    pure (decide (cardBinding (harness.upper (name.text harness.py)) = some binding))

/-- `sorted({str(i.get('protocolBinding')) for i in …})`. -/
def advertised (card : Value) : Except PyError (List String) := do
  let items ← interfaces card
  let names ← items.mapM fun item => do
    let name ← item.getOr "protocolBinding" .null
    pure (name.text harness.py)
  pure (sortedSet names)

/-- Version 1.0 wins where the card advertises several. -/
def isCurrentVersion (item : Value) : Except PyError Bool := do
  let version ← item.getOr "protocolVersion" (.str "")
  pure (decide (version.text harness.py = "1.0"))

/-- The first item that meets a test, which the items before it are put to. -/
def findM (p : Value → Except PyError Bool) : List Value → Except PyError (Option Value)
  | [] => pure none
  | item :: rest => do
      if ← p item then pure (some item) else findM p rest

/-- `interface_for`, for the URL. -/
def interfaceFor (card : Value) (binding : TransportBinding) : Except RunFailure String :=
  match harness.candidates card binding with
  | .error e => .error (.raised (.builtin e))
  | .ok [] =>
      match harness.advertised card with
      | .error e => .error (.raised (.builtin e))
      | .ok names => .error (.actsRunError ("the agent card advertises no " ++ binding.value ++
          " interface; it lists " ++ (if names.isEmpty then "nothing"
            else "[" ++ ", ".intercalate (names.map Text.repr) ++ "]")))
  | .ok (first :: rest) => do
      let url ← Except.mapError (.raised ∘ .builtin) do
        let chosen ← findM harness.isCurrentVersion (first :: rest)
        let url ← (chosen.getD first).getOr "url" .null
        pure (if url.truthy then url.text harness.py else "")
      if url = "" then
        throw (.actsRunError ("the " ++ binding.value ++ " interface on the card has no url"))
      else pure url

/-- `text.removeprefix(start)`. -/
def withoutStart (start text : List Char) : List Char :=
  if start.isPrefixOf text then text.drop start.length else text

/-- `build_dispatcher`: the mount point of an HTTP binding as advertised, the `host:port` of
a gRPC one. -/
def buildDispatcher (card : Value) (binding : TransportBinding) (baseUrl : String) :
    Except RunFailure (Runner σ) := do
  let url ← harness.interfaceFor card binding
  match binding with
  | .grpc =>
      let target := withoutStart "https://".toList (withoutStart "http://".toList url.toList)
      pure (harness.connect binding (String.ofList (Text.rstripChar '/' target)) baseUrl)
  | _ => pure (harness.connect binding url baseUrl)

end Card

section Run

variable {σ : Type} (harness : Harness σ)

/-- A part of the run that acts on the outside only. -/
def outside {α : Type} (f : σ → α × σ) : EStateM RunFailure (World σ) α :=
  Effects.update fun w => ((f w.outside).1, { w with outside := (f w.outside).2 })

/-- The program of a runner. -/
def inside {α : Type} (x : EStateM Exception σ α) : EStateM RunFailure (World σ) α := fun w =>
  match x w.outside with
  | .ok a t => .ok a { w with outside := t }
  | .error e t => .error (.raised e) { w with outside := t }

def emit (event : Event) : EStateM RunFailure (World σ) PUnit :=
  Effects.update fun w => (⟨⟩, { w with log := w.log ++ [event] })

/-- The events of a cleanup. -/
def emitted (events : List Event) (w : World σ) : World σ := { w with log := w.log ++ events }

/-- `fetch_agent_card`. -/
def fetchAgentCard (baseUrl : String) : EStateM RunFailure (World σ) Value := do
  let url := String.ofList (Text.rstripChar '/' baseUrl.toList) ++ "/.well-known/agent-card.json"
  match ← outside (harness.readCard url) with
  | .card v => pure v
  | .failed text => throw (.actsRunError ("cannot read the agent card at " ++ url ++ ": " ++ text))
  | .raised e => throw (.raised e)

/-- The block of `_webhook_receiver`, once the receiver answers or has been given up on. -/
def receiving {α : Type} (block : Option ℕ → EStateM RunFailure (World σ) α) (port : ℕ) :
    EStateM RunFailure (World σ) α := do
  match ← outside (harness.pollReceiver port) with
  | .error e => throw (.raised e)
  | .ok up => block (if up then some port else none)

/-- `_webhook_receiver`: the block is given the port the receiver listens on, if it came
up. -/
def webhookReceiver {α : Type} (block : Option ℕ → EStateM RunFailure (World σ) α) :
    EStateM RunFailure (World σ) α := do
  match ← outside harness.freePort with
  | .error e => throw (.raised e)
  | .ok port => do
      emit (.reservePort port)
      match ← outside (harness.startReceiver port) with
      | some e => throw (.raised e)
      | none => do
          emit (.startReceiver port)
          Effects.ensuring (harness.receiving block port)
            (emitted [.stopReceiver port, .releasePort port])

/-- Variables the corpus names that no document defines. -/
def runnerVariables : List (String × Value) :=
  [("insufficientAuthToken", .str "itk-insufficient-token"),
    ("otherUserTaskId", .str "00000000-0000-0000-0000-0000000000ff")]

/-- Capabilities this harness has by construction. -/
def runnerCapabilities : List RunnerRequirement :=
  [.headerInspection, .authCredentials, .concurrentStreams, .streamDisconnect]

/-- What every pass of a run is given. -/
structure PassContext where
  transport : TransportBinding
  vars : Dict String Value
  capabilities : List RunnerRequirement
  declared : Option (List String)

/-- The address the SUT sends its notifications to. -/
def webhookUrl (port : ℕ) : String := "http://127.0.0.1:" ++ Nat.repr port ++ "/notifications"

/-- The runner of a pass. -/
def runnerOf (context : PassContext) (dispatcher : Runner σ) (card : Value)
    (environ : Dict String String) (receiver : Option ℕ) : Runner σ :=
  { dispatcher with
    py := harness.py
    vars := match receiver with
      | some port =>
          if (context.vars.get? "webhookUrl").isSome then context.vars
          else context.vars.set "webhookUrl" (.str (webhookUrl port))
      | none => context.vars
    agentCard := some card
    sutBehaviors := context.declared
    capabilities := match receiver with
      | some _ => context.capabilities ++ [.webhookEndpoint]
      | none => context.capabilities
    readWebhook := receiver.map harness.readWebhook
    environ := environ.get? }

/-- The variables of the documents, as the tests see them. -/
def documentVars (suite : LoadedSuite) : Dict String Value :=
  Dict.ofList (suite.vars.entries.map fun entry => (entry.1, .str entry.2))

/-- The tests of a pass, with a receiver or without. -/
def interrogate (context : PassContext) (suite : LoadedSuite) (dispatcher : Runner σ)
    (card : Value) (receiver : Option ℕ) :
    EStateM RunFailure (World σ) (List TestResult × Value) := do
  let w ← get
  let runner := harness.runnerOf context dispatcher card w.environ receiver
  let results ← inside (runner.runSuite (documentVars suite) (suite.tests.map LoadedTest.test))
  pure (results, card)

/-- A pass against the agent at a base URL. -/
def runAt (context : PassContext) (suite : LoadedSuite) (baseUrl : String) :
    EStateM RunFailure (World σ) (List TestResult × Value) := do
  let card ← harness.fetchAgentCard baseUrl
  let dispatcher ← Effects.lift (harness.buildDispatcher card context.transport baseUrl)
  Effects.ensuring (harness.webhookReceiver (harness.interrogate context suite dispatcher card))
    (emitted [.closeDispatcher])

/-- Start the mounted agent, for its base URL. -/
def launch (pass : Option Pass) : EStateM RunFailure (World σ) String := do
  let w ← get
  emit (.startSut pass w.environ)
  match ← outside (harness.startSut pass w.environ) with
  | .up port => pure ("http://127.0.0.1:" ++ Nat.repr port)
  | .failed text => throw (.actsRunError ("the code under test failed to start: " ++ text))
  | .raised e => throw (.raised e)

/-- `_run_pass`. -/
def runPass (context : PassContext) (pass : Option Pass) (suite : LoadedSuite)
    (sutUrl : Option String) : EStateM RunFailure (World σ) (List TestResult × Value) :=
  match sutUrl with
  | some url => harness.runAt context suite url
  | none => Effects.ensuring (harness.launch pass >>= harness.runAt context suite)
      (emitted [.stopSut pass])

/-- A variable as it was before. -/
def putBack (name : String) (before environ : Dict String String) : Dict String String :=
  match before.get? name with
  | none => environ.erase name
  | some previous => environ.set name previous

/-- `_sut_env`. -/
def sutEnv {α : Type} (pass : Pass) (block : EStateM RunFailure (World σ) α) :
    EStateM RunFailure (World σ) α :=
  Effects.within (fun w => { w with environ := w.environ.set pass.envVar "1" })
    (fun before w => { w with environ := putBack pass.envVar before.environ w.environ })
    block

/-- `_subset`. -/
def subset (suite : LoadedSuite) (p : LoadedTest → Bool) : LoadedSuite :=
  { tests := suite.tests.filter p, vars := suite.vars, sources := suite.sources }

/-- The results with those of a pass in their place, stamped with its configuration. -/
def spliced (pass : Pass) (results rerun : List TestResult) : List TestResult :=
  let replacement := Dict.ofList (rerun.map fun r =>
    (r.id, { r with configuration := some pass.envVar }))
  results.map fun r => (replacement.get? r.id).getD r

/-- The second SUT: only a spawned one reads the variable from this process's environment. -/
def deviatedPass (context : PassContext) (pass : Pass) (suite : LoadedSuite)
    (sutUrl : Option String) : EStateM RunFailure (World σ) (List TestResult × Value) :=
  let body := harness.runPass context (some pass) suite sutUrl
  if sutUrl.isNone then sutEnv pass body else body

/-- What the second SUT's pass means for the results. -/
def judged (pass : Pass) (results : List TestResult) (captured : List String) :
    Except RunFailure (List TestResult × Value) → Except RunFailure (List TestResult)
  | .error e => if e.isActsRunError then .ok results else .error e
  | .ok (rerun, card) =>
      match pass.tookEffect card captured with
      | .error e => .error (.raised (.builtin e))
      | .ok (some _) => .ok results
      | .ok none => .ok (spliced pass results rerun)

/-- `_rerun_deviation`. -/
def rerunDeviation (context : PassContext) (suite : LoadedSuite) (pass : Pass)
    (sutUrl : Option String) (results : List TestResult) :
    EStateM RunFailure (World σ) (List TestResult) :=
  let blocked := pass.skipsMatching harness.beyond results
  if blocked.entries.isEmpty then pure results
  else do
    let narrowed := subset suite fun loaded => decide (loaded.id ∈ blocked.keys)
    let outcome ← Effects.attempt (harness.deviatedPass context pass narrowed sutUrl)
    Effects.lift (judged pass results blocked.values outcome)

/-- One round of the loop over the deviations. -/
def deviate (context : PassContext) (request : RunRequest) (suite : LoadedSuite)
    (results : List TestResult) (pass : Pass) :
    EStateM RunFailure (World σ) (List TestResult) :=
  let deviatedUrl := request.deviationUrls.get? pass.envVar
  if request.sutUrl.isSome && deviatedUrl.isNone then pure results
  else harness.rerunDeviation context suite pass deviatedUrl results

/-- `sorted(set)`, as a message shows it. -/
def listed (names : List String) : String :=
  "[" ++ ", ".intercalate ((sortedSet names).map Text.repr) ++ "]"

/-- Deviation URLs name instances of an external SUT. -/
def checkDeviations (request : RunRequest) : Except RunFailure Unit :=
  let unknown := request.deviationUrls.keys.filter (· ∉ Pass.all.map Pass.envVar)
  if request.deviationUrls.entries ≠ [] ∧ request.sutUrl = none then
    .error (.actsRunError "deviation URLs name instances of an external SUT; pass sut_url too")
  else if unknown ≠ [] then
    .error (.actsRunError ("no deviation is configured by " ++ listed unknown))
  else .ok ()

/-- The tests that were asked for by name. -/
def selected (testIds : List String) (suite : LoadedSuite) : Except RunFailure LoadedSuite :=
  if testIds.isEmpty then .ok suite
  else
    let chosen := subset suite fun loaded => decide (loaded.id ∈ testIds)
    let missing := testIds.filter (· ∉ chosen.tests.map LoadedTest.id)
    if missing ≠ [] then
      .error (.actsRunError ("no such test(s) in the corpus: " ++ listed missing))
    else .ok chosen

/-- `_in_scope`: the tests this binding is graded on. -/
def inScope (transport : TransportBinding) (suite : LoadedSuite) : Except RunFailure LoadedSuite :=
  let graded := subset suite fun loaded => loaded.test.appliesTo transport
  if graded.tests.isEmpty then
    .error (.noApplicableTests ("no selected test targets " ++ transport.value ++ ": " ++
      ", ".intercalate (suite.tests.map LoadedTest.id)))
  else .ok graded

/-- The prefixes the SUT declares, if there is a contract to hold it to. -/
def declared (request : RunRequest) : Except RunFailure (Option (List String)) :=
  if request.gateOnBehaviors then Except.mapError .actsRunError request.behaviors else .ok none

/-- What `run` does before it starts anything: the suite it grades and the prefixes the SUT
declares. -/
def prepared (request : RunRequest) : Except RunFailure (LoadedSuite × Option (List String)) := do
  checkDeviations request
  let suite ← Except.mapError .raised request.suite
  let chosen ← selected request.testIds suite
  let graded ← inScope request.transport chosen
  let prefixes ← declared request
  pure (graded, prefixes)

/-- What every pass of the run is given. -/
def contextOf (request : RunRequest) (declared : Option (List String)) : PassContext where
  transport := request.transport
  vars := (Dict.ofList runnerVariables).update request.vars.entries
  capabilities := runnerCapabilities ++ request.capabilities
  declared := declared

/-- The passes of a run over the suite it grades. -/
def passes (request : RunRequest) (suite : LoadedSuite) (declared : Option (List String)) :
    EStateM RunFailure (World σ) ActsRun := do
  let context := contextOf request declared
  let (results, card) ← harness.runPass context none suite request.sutUrl
  let results ← Pass.all.foldlM (harness.deviate context request suite) results
  pure {
    results
    suite
    transport := request.transport
    agentCard := card
    declaredBehaviors := declared
    externalSut := request.sutUrl.isSome }

/-- `run`. -/
def run (request : RunRequest) : EStateM RunFailure (World σ) ActsRun := do
  let (suite, declared) ← Effects.lift (prepared request)
  harness.passes request suite declared

end Run

end Harness

end A2aItk.Acts
