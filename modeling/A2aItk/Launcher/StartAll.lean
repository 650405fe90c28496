import A2aItk.Launcher.Errors
import A2aItk.Launcher.TargetSpec

/-!
# Starting a cluster

`start_all` and `_start_one` of `launcher/cluster.py`, with `resolve`, `spawn_from_dir` and
`wait_ready`: what a target's outcome is, and what is raised instead of one.

## Implementation notes

What the outside answers to a target is a parameter of its start, so targets that start at
once may interfere in any way. The workers of the pool write their slots in the order of a
schedule. An outcome's `elapsed_s` is left out.
-/

namespace A2aItk.Launcher

open Python

/-- `builders.Language`: what an agent is written in. -/
inductive Language
  | python
  | go
  | java
  | rust
  | ts
  | dotnet
  deriving DecidableEq

/-- What `spawn_from_dir` sees of an agent's directory. -/
structure AgentDir where
  path : String
  present : Bool
  mainGo : Bool
  mainPy : Bool
  /-- in the parent directory -/
  packageJson : Bool
  csproj : Bool
  pomXml : Bool
  cargoToml : Bool

/-- The first marker decides. -/
def AgentDir.language (dir : AgentDir) : Option Language :=
  if dir.mainGo then some .go
  else if dir.mainPy then some .python
  else if dir.packageJson then some .ts
  else if dir.csproj then some .dotnet
  else if dir.pomXml then some .java
  else if dir.cargoToml then some .rust
  else none

/-- What a call of `_kill_pgroup` meets. -/
structure Killing where
  /-- `proc.poll()` is an exit code -/
  exited : Bool
  /-- `os.killpg(pgid, SIGTERM)` -/
  term : Except Raised Unit
  /-- `proc.wait` returns within the grace period -/
  exitsInGrace : Bool
  /-- `os.killpg(pgid, SIGKILL)` -/
  kill : Except Raised Unit
  exitCode : Option Int

/-- What the outside answers to one target. -/
structure Outside where
  /-- `cache.checkout_and_build` -/
  checkout : Except Raised Unit
  mountPresent : Bool
  /-- `ports.allocate_pair` -/
  allocatePair : Except Raised (ℕ × ℕ)
  agentDir : AgentDir
  /-- the log directory is made and the log file opened -/
  openLog : Except Raised Unit
  /-- the process id, once the build tool has run and the agent is started -/
  spawnAs : Language → Except Raised ℕ
  /-- the status, or what `urlopen` raises, for every attempt up to the deadline -/
  attempts : List (Except Raised ℕ)
  killing : Killing

/-- A running agent: what it was started from, and where it listens. -/
structure AgentHandle where
  spec : TargetSpec
  httpPort : ℕ
  grpcPort : ℕ
  pid : ℕ

/-- What became of one target: an agent that runs, or the error why not. -/
structure StartOutcome where
  spec : TargetSpec
  handle : Option AgentHandle
  error : Option LauncherError

/-- The outcome of a target that was not started. -/
def StartOutcome.failed (spec : TargetSpec) (error : LauncherError) : StartOutcome :=
  ⟨spec, none, some error⟩

section Stages

variable (spec : TargetSpec) (outside : Outside)

/-- `_resolve_and_pin`, up to the pin. -/
def resolve : Except Raised Unit :=
  match spec.kind with
  | .mount =>
      if outside.mountPresent then .ok ()
      else .error (.runtimeError
        "current agent has not been mounted and is not available to test")
  | .checkout =>
      match spec.repo, spec.sha with
      | some _, some _ => outside.checkout
      -- `assert spec.repo is not None and spec.sha is not None`
      | _, _ => .error (.exception "")

/-- `_current.spawn_from_dir`. -/
def spawnFromDir : Except Raised ℕ :=
  if outside.agentDir.present then do
    outside.openLog
    match outside.agentDir.language with
    | some language => outside.spawnAs language
    | none => .error (.runtimeError
        (s!"could not determine agent type in {outside.agentDir.path}. Expected main.go, " ++
          "main.py, ../package.json, *.csproj, pom.xml, or Cargo.toml."))
  else .error (.runtimeError s!"agent dir does not exist: {outside.agentDir.path}")

/-- An attempt that was answered with 200. -/
def answered : Except Raised ℕ → Bool
  | .ok status => status = 200
  | .error _ => false

/-- `health.wait_ready`. -/
def waitReady : List (Except Raised ℕ) → Except Raised Bool
  | [] => .ok false
  | .ok status :: rest => if status = 200 then .ok true else waitReady rest
  | .error e :: rest => if e.isOSError then waitReady rest else .error e

/-- A signal to a group. One that is gone is no error. -/
def tryKillpg : Except Raised Unit → Except Raised Unit
  | .ok () => .ok ()
  | .error e => if e.isGone then .ok () else .error e

/-- `_kill_pgroup`: the group is asked to end, and killed after the grace period. -/
def killPgroup (killing : Killing) : Except Raised Unit :=
  if killing.exited then .ok ()
  else do
    tryKillpg killing.term
    if killing.exitsInGrace then .ok () else tryKillpg killing.kill

/-- Where readiness is asked for. -/
def agentCardUrl (httpPort : ℕ) : String :=
  s!"http://127.0.0.1:{httpPort}/.well-known/agent-card.json"

/-- `{proc.poll()}`. -/
def exitText : Option Int → String
  | some code => toString code
  | none => "None"

/-- `_start_one`, which passes on what none of its handlers catches. -/
def startOne (readinessTimeout : ℕ) : Except Raised StartOutcome :=
  match resolve spec outside with
  | .error (.launcher e) => .ok (.failed spec e)
  | .error e => .error e
  | .ok () =>
  match outside.allocatePair with
  | .error (.runtimeError message) =>
      .ok (.failed spec (.infraFailure spec.repo spec.sha .spawn none
        (some s!"port allocation failed: {message}")))
  | .error e => .error e
  | .ok (http, grpc) =>
  match spawnFromDir outside with
  | .error (.runtimeError message) =>
      .ok (.failed spec (.permanentError spec.repo spec.sha .spawn message))
  | .error e =>
      if e.isOSError || e.isSubprocessError then
        .ok (.failed spec (.infraFailure spec.repo spec.sha .spawn (some e.text) none))
      else .error e
  | .ok pid =>
  match waitReady outside.attempts with
  | .error e => .error e
  | .ok true => .ok ⟨spec, some ⟨spec, http, grpc, pid⟩, none⟩
  | .ok false =>
  match killPgroup outside.killing with
  | .error e => .error e
  | .ok () =>
      .ok (.failed spec (.infraFailure spec.repo spec.sha .ready none
        (some (s!"agent did not respond 200 at {agentCardUrl http} within " ++
          s!"{readinessTimeout}s (proc exit={exitText outside.killing.exitCode})"))))

end Stages

/-- How a call of `start_all` is set up, besides its specs. -/
structure StartSettings where
  readinessTimeout : ℕ
  logNames : Option (List (Option String))
  maxWorkers : Option Int
  /-- `ITK_MAX_WORKERS`, empty where it is unset -/
  itkMaxWorkers : String

/-- The order in which the workers of a pool come to write their slots. -/
structure Schedule (n : ℕ) where
  order : List ℕ
  complete : order.Perm (List.range n)

/-- `config.max_workers`. -/
def configMaxWorkers (raw : String) : Except Raised (Option Int) :=
  let val := Text.strip raw.toList
  if val.isEmpty then .ok none
  else match Text.int val with
    | none => .error (.exception
        (s!"ITK_MAX_WORKERS must be a positive integer, got " ++
          Text.repr (String.ofList val)))
    | some n =>
        if n < 1 then .error (.exception s!"ITK_MAX_WORKERS must be >= 1, got {n}")
        else .ok (some n)

/-- The number of workers, and what `ThreadPoolExecutor` refuses of it. -/
def poolSize (settings : StartSettings) (n : ℕ) : Except Raised Int := do
  let maxWorkers ← match settings.maxWorkers with
    | some workers => .ok (some workers)
    | none => configMaxWorkers settings.itkMaxWorkers
  let workers := maxWorkers.getD (max 4 n : ℕ)
  if workers ≤ 0 then .error (.exception "max_workers must be greater than 0")
  else .ok workers

/-- One worker: the slot stays empty where `_start_one` raises. -/
def fillSlot (results : List (Except Raised StartOutcome))
    (slots : List (Option StartOutcome)) (i : ℕ) : List (Option StartOutcome) :=
  match results[i]? with
  | some (.ok outcome) => slots.set i (some outcome)
  | _ => slots

/-- The outcome of a worker that did not run. -/
def unfinished (spec : TargetSpec) : StartOutcome :=
  .failed spec (.infraFailure spec.repo spec.sha .spawn none
    (some "start_all worker did not run to completion"))

/-- `start_all`. -/
def startAll (settings : StartSettings) (specs : List TargetSpec)
    (schedule : Schedule specs.length) (outside : ℕ → Outside) :
    Except Raised (List StartOutcome) :=
  if specs.isEmpty then .ok []
  else if (settings.logNames.any fun names => names.length ≠ specs.length) then
    .error (.exception
      (s!"log_names has {(settings.logNames.getD []).length} entries but there are " ++
        s!"{specs.length} specs; they must line up positionally"))
  else do
    let _ ← poolSize settings specs.length
    let results := specs.mapIdx fun i spec => startOne spec (outside i) settings.readinessTimeout
    let slots := schedule.order.foldl (fillSlot results) (List.replicate specs.length none)
    -- `executor.map` raises again what its first failed worker raised
    results.forM fun result => result.map fun _ => ()
    .ok (specs.zipWith (fun spec slot => slot.getD (unfinished spec)) slots)

end A2aItk.Launcher
