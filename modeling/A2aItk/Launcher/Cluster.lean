import A2aItk.Python.Dict
import A2aItk.Transition.Runs

/-!
# The life of a cluster

`launcher/cluster.py`, with what it calls of `cache.py`, `ports.py` and `current.py`: the
workers that start agents, each in its own time, the lists the cluster keeps for its
teardown, and the teardown.

## Implementation notes

A worker is one call of `_start_one`; its point says what it has done and holds in local
variables. `start_all` starts many and `add` one, and both return after their workers.
What is taken, recorded and given back is counted as resources. Log files and process
groups are numbered as they come. A group counts as signalled where `killpg` was called on
it, and agents live and die as they like.
-/

namespace A2aItk.Launcher

open Python

/-- What a teardown has to give back. -/
inductive Resource (κ : Type*)
  | pin (key : κ)
  | port (p : ℕ)
  | log (file : ℕ)
  | group (pgid : ℕ)
  deriving DecidableEq

/-- Where an agent comes from. -/
inductive Source (κ : Type*)
  | checkout (key : κ)
  | mount
  deriving DecidableEq

/-- Where a call of `_kill_pgroup` is. -/
inductive KillPoint
  | poll
  | term
  | wait
  | kill
  deriving DecidableEq

/-- Where a worker is. -/
inductive Point (κ : Type*)
  | resolving (source : Source κ)
  /-- pinned, in `checkout_and_build` -/
  | building (key : κ)
  /-- the checkout has returned -/
  | built (key : κ)
  | allocating
  /-- a port is found that the reservoir does not contain -/
  | taking (http : ℕ)
  | allocatingGrpc (http : ℕ)
  | takingGrpc (http grpc : ℕ)
  | allocated (http grpc : ℕ)
  /-- in `_popen_factory` -/
  | opening
  | launching (file : Option ℕ)
  | launched (pgid : ℕ) (file : Option ℕ)
  | polling (pgid : ℕ)
  | ready (pgid : ℕ)
  | killing (pgid : ℕ) (stage : KillPoint)
  deriving DecidableEq

/-- How the call a worker is in ends. -/
inductive Event
  | returns
  /-- it raises, or `wait_ready` and `wait` give up -/
  | fails
  /-- it raises what nothing on the way handles -/
  | escapes
  | port (p : ℕ)
  | log
  deriving DecidableEq

/-- The processes of an agent. -/
structure Group where
  leader : Bool := true
  descendants : Bool := false
  signalled : Bool := false
  deriving DecidableEq

namespace Group

def alive (group : Group) : Bool := group.leader || group.descendants

end Group

inductive Phase
  | running
  | exiting
  | closed
  deriving DecidableEq

structure Cluster (κ : Type*) where
  handles : List ℕ := []
  pinned : List κ := []
  logHandles : List ℕ := []
  allocatedPorts : List ℕ := []
  /-- the ports the reservoir contains -/
  reserved : List ℕ := []
  /-- the log files opened so far -/
  opened : ℕ := 0
  groups : List Group := []
  workers : Dict ℕ (Point κ) := Dict.empty
  phase : Phase := .running
  acquired : List (Resource κ) := []
  released : List (Resource κ) := []

variable {κ : Type*}

namespace Cluster

section Parts

variable (s : Cluster κ)

/-- A resource is taken. -/
def take (r : Resource κ) : Cluster κ :=
  let taken := { s with acquired := s.acquired ++ [r] }
  match r with
  | .pin _ => taken
  | .port p => { taken with reserved := p :: s.reserved }
  | .log _ => { taken with opened := s.opened + 1 }
  | .group _ => { taken with groups := s.groups ++ [{}] }

/-- A resource is given back, or a process group needs nothing more. -/
def giveBack (r : Resource κ) : Cluster κ :=
  let given := { s with released := s.released ++ [r] }
  match r with
  | .port p => { given with reserved := s.reserved.filter (· ≠ p) }
  | _ => given

/-- A resource is put on the list of its kind. -/
def record (r : Resource κ) : Cluster κ :=
  match r with
  | .pin key => { s with pinned := s.pinned ++ [key] }
  | .port p => { s with allocatedPorts := s.allocatedPorts ++ [p] }
  | .log file => { s with logHandles := s.logHandles ++ [file] }
  | .group pgid => { s with handles := s.handles ++ [pgid] }

def goto (worker : ℕ) (point : Point κ) : Cluster κ :=
  { s with workers := s.workers.set worker point }

def leave (worker : ℕ) : Cluster κ := { s with workers := s.workers.erase worker }

def updateGroup (pgid : ℕ) (f : Group → Group) : Cluster κ :=
  { s with groups := s.groups.modify pgid f }

/-- `os.killpg`. -/
def signal (pgid : ℕ) : Cluster κ :=
  s.updateGroup pgid fun group => { group with signalled := true }

/-- `proc.poll() is not None`, and `proc.wait()` has returned. -/
def leaderExited (pgid : ℕ) : Bool := (s.groups[pgid]?).any fun group => !group.leader

/-- What is recorded besides the agents, in the order of the teardown. -/
def kept : List (Resource κ) :=
  s.logHandles.map .log ++ s.pinned.map .pin ++ s.allocatedPorts.map .port

/-- The log files, pins and ports are given back, and all lists cleared. -/
def finish : Cluster κ :=
  { s.kept.foldl giveBack s with
    pinned := [], logHandles := [], allocatedPorts := [], phase := .closed }

end Parts

/-- One step of a worker at a point of `_start_one`. -/
def advance (s : Cluster κ) (worker : ℕ) : Point κ → Event → Option (Cluster κ)
  | .resolving (.checkout key), .returns => some ((s.take (.pin key)).goto worker (.building key))
  | .resolving .mount, .returns => some (s.goto worker .allocating)
  | .resolving _, .fails => some (s.leave worker)
  | .building key, .returns => some (s.goto worker (.built key))
  -- fetching or building failed
  | .building key, .fails => some ((s.giveBack (.pin key)).leave worker)
  -- the pin file or the sentinel could not be written
  | .building _, .escapes => some (s.leave worker)
  | .built key, .returns => some ((s.record (.pin key)).goto worker .allocating)
  | .allocating, .port p => if p ∈ s.reserved then none else some (s.goto worker (.taking p))
  | .allocating, .fails => some (s.leave worker)
  | .taking http, .returns =>
      some ((s.take (.port http)).goto worker (.allocatingGrpc http))
  | .allocatingGrpc http, .port p =>
      if p ∈ s.reserved then none else some (s.goto worker (.takingGrpc http p))
  | .allocatingGrpc http, .fails => some ((s.giveBack (.port http)).leave worker)
  | .takingGrpc http grpc, .returns =>
      -- `assert http != grpc`
      if http = grpc then some ((s.take (.port grpc)).leave worker)
      else some ((s.take (.port grpc)).goto worker (.allocated http grpc))
  | .allocated http grpc, .returns =>
      some (((s.record (.port http)).record (.port grpc)).goto worker .opening)
  | .opening, .returns => some (s.goto worker (.launching none))
  | .opening, .log =>
      some ((s.take (.log s.opened)).goto worker (.launching (some s.opened)))
  | .opening, .fails => some (s.leave worker)
  | .launching file, .returns =>
      some ((s.take (.group s.groups.length)).goto worker (.launched s.groups.length file))
  | .launching _, .fails => some (s.leave worker)
  | .launched pgid (some file), .returns =>
      some ((s.record (.log file)).goto worker (.polling pgid))
  | .launched pgid none, .returns => some (s.goto worker (.polling pgid))
  | .polling pgid, .returns => some (s.goto worker (.ready pgid))
  | .polling pgid, .fails => some (s.goto worker (.killing pgid .poll))
  | .polling _, .escapes => some (s.leave worker)
  | .ready pgid, .returns => some ((s.record (.group pgid)).leave worker)
  | .killing pgid .poll, .returns =>
      if s.leaderExited pgid then some ((s.giveBack (.group pgid)).leave worker)
      else some (s.goto worker (.killing pgid .term))
  | .killing pgid .term, .returns =>
      some (((s.signal pgid).giveBack (.group pgid)).goto worker (.killing pgid .wait))
  -- `killpg` raised what `_try_killpg` does not swallow
  | .killing pgid .term, .escapes =>
      some (((s.signal pgid).giveBack (.group pgid)).leave worker)
  | .killing pgid .wait, .returns => if s.leaderExited pgid then some (s.leave worker) else none
  | .killing pgid .wait, .fails => some (s.goto worker (.killing pgid .kill))
  | .killing pgid .kill, .returns => some ((s.signal pgid).leave worker)
  | _, _ => none

end Cluster

/-- What can happen next. -/
inductive ClusterAction (κ : Type*)
  | start (worker : ℕ) (source : Source κ)
  | work (worker : ℕ) (event : Event)
  /-- the context exits -/
  | exit
  /-- `__exit__` goes on to the next handle -/
  | kill (worker : ℕ)
  | finish
  /-- the leader of a group exits, its descendants do, or it has a new one -/
  | leaderExits (pgid : ℕ)
  | descendantsExit (pgid : ℕ)
  | forks (pgid : ℕ)

namespace Cluster

/-- One step of a worker, of the teardown or of an agent. -/
def step (s : Cluster κ) : ClusterAction κ → Option (Cluster κ)
  | .start worker source =>
      if s.phase = .running ∧ (s.workers.get? worker).isNone then
        some (s.goto worker (.resolving source))
      else none
  | .work worker event => (s.workers.get? worker).bind fun point => s.advance worker point event
  | .exit =>
      if s.phase = .running ∧ s.workers.entries = [] then some { s with phase := .exiting }
      else none
  | .kill worker =>
      match s.handles with
      | pgid :: rest =>
          if s.phase = .exiting ∧ s.workers.entries = [] then
            some (goto { s with handles := rest } worker (.killing pgid .poll))
          else none
      | [] => none
  | .finish =>
      if s.phase = .exiting ∧ s.workers.entries = [] ∧ s.handles = [] then some s.finish else none
  | .leaderExits pgid =>
      some (s.updateGroup pgid fun group => { group with leader := false })
  | .descendantsExit pgid =>
      some (s.updateGroup pgid fun group => { group with descendants := false })
  | .forks pgid =>
      some (s.updateGroup pgid fun group => { group with descendants := group.alive })

end Cluster

end A2aItk.Launcher
