import A2aItk.Launcher.Cache

/-!
# The files of the checkout cache

`checkout_and_build` and `evict` again, one file-system step at a time: what is on
disk when a process is killed between two of them.

## Implementation notes

A tree is the files under its directory. Fetching and building write what they
like, in steps; removing a tree takes its entries in any order. A killed process
leaves the files as they are, and the kernel drops its locks. Pins only keep
`evict` from some of the visits that are possible here.
-/

namespace A2aItk.Launcher

open Python

/-- A path below a tree, part by part. -/
abbrev Path := List String

/-- The entries of a tree with what they contain. -/
abbrev Contents := Dict Path String

/-- Where the sentinel is. -/
def sentinelPath : Path := [".itk-built"]

/-- The directory of the agent within a tree. -/
def agentSubdir : String := "itk"

namespace Contents

/-- `sentinel.exists()`. -/
def hasSentinel (c : Contents) : Bool := sentinelPath ∈ c.keys

/-- `agent_dir.exists()`. -/
def hasAgentDir (c : Contents) : Bool := c.keys.any fun path => path.head? = some agentSubdir

/-- `sentinel.touch()`. -/
def touched (c : Contents) : Contents := if c.hasSentinel then c else c.set sentinelPath ""

end Contents

/-- Where the thread that holds a key's lock is. -/
inductive Stage
  /-- looking for the sentinel -/
  | checking
  /-- removing what an earlier build left -/
  | clearing
  | fetching
  | building
  /-- built, the sentinel still to be touched -/
  | finishing
  /-- removing what a failed fetch or build left -/
  | failing
  /-- `evict`, and whether it has removed anything -/
  | evicting (begun : Bool)
  deriving DecidableEq

/-- The process that holds the lock of a key, and how far it has come. -/
structure Worker where
  pid : Pid
  stage : Stage
  deriving DecidableEq

/-- The disk, and who holds which lock. `outputs` are the trees that a successful
build after a successful fetch has left, `returned` those that a checkout returned
without building. -/
structure TreeFiles (κ : Type*) where
  trees : κ → Option Contents
  locks : Dict κ Worker
  outputs : List (κ × Contents)
  returned : List (κ × Contents)

/-- What may happen next, by any process. -/
inductive FileAction (κ : Type*)
  | lock (pid : Pid) (key : κ)
  | check (key : κ)
  | remove (key : κ) (path : Path)
  | removed (key : κ)
  | write (key : κ) (path : Path) (content : String)
  | delete (key : κ) (path : Path)
  | fetched (key : κ) (ok : Bool)
  | built (key : κ) (ok : Bool)
  | touch (key : κ)
  | evict (pid : Pid) (key : κ)
  | kill (pid : Pid)

variable {κ : Type*} [DecidableEq κ]

namespace TreeFiles

section Parts

variable (s : TreeFiles κ) (key : κ)

/-- The files of a tree; none if there is no tree. -/
def contents : Contents := (s.trees key).getD Dict.empty

/-- The tree of the key is this one. -/
def setTree (tree : Option Contents) : TreeFiles κ :=
  { s with trees := Function.update s.trees key tree }

/-- The worker of the key has come to this stage. -/
def setStage (worker : Worker) (stage : Stage) : TreeFiles κ :=
  { s with locks := s.locks.set key { worker with stage := stage } }

/-- The lock of the key is given back. -/
def unlock : TreeFiles κ := { s with locks := s.locks.erase key }

/-- Return the tree where its sentinel is there, else start clean. -/
def check (worker : Worker) : TreeFiles κ :=
  match s.trees key with
  | none => s.setStage key worker .fetching
  | some tree =>
      if tree.hasSentinel then { s.unlock key with returned := (key, tree) :: s.returned }
      else s.setStage key worker .clearing

end Parts

/-- The stage after an entry is removed. -/
def removing : Stage → Option Stage
  | .clearing => some .clearing
  | .failing => some .failing
  | .evicting _ => some (.evicting true)
  | _ => none

/-- A step of the thread that holds the lock of a key, where there is one. -/
def byWorker (s : TreeFiles κ) (key : κ) (f : Worker → Option (TreeFiles κ)) :
    Option (TreeFiles κ) :=
  (s.locks.get? key).bind f

/-- One file-system step of some process, or its death. -/
def step (s : TreeFiles κ) : FileAction κ → Option (TreeFiles κ)
  | .lock pid key =>
      if (s.locks.get? key).isNone then some (s.setStage key ⟨pid, .checking⟩ .checking)
      else none
  | .evict pid key =>
      if (s.locks.get? key).isNone then some (s.setStage key ⟨pid, .checking⟩ (.evicting false))
      else none
  | .check key =>
      s.byWorker key fun worker =>
        if worker.stage = .checking then some (s.check key worker) else none
  | .remove key path =>
      s.byWorker key fun worker =>
        if path ∈ (s.contents key).keys then
          (removing worker.stage).map fun stage =>
            (s.setTree key (some ((s.contents key).erase path))).setStage key worker stage
        else none
  | .removed key =>
      s.byWorker key fun worker =>
        if (s.contents key).entries.isEmpty then
          match worker.stage with
          | .clearing => some ((s.setTree key none).setStage key worker .fetching)
          | .failing | .evicting _ => some ((s.setTree key none).unlock key)
          | _ => none
        else none
  | .write key path content =>
      s.byWorker key fun worker =>
        if worker.stage = .fetching ∨ worker.stage = .building then
          some (s.setTree key (some ((s.contents key).set path content)))
        else none
  | .delete key path =>
      s.byWorker key fun worker =>
        if worker.stage = .fetching ∨ worker.stage = .building then
          some (s.setTree key (some ((s.contents key).erase path)))
        else none
  | .fetched key ok =>
      s.byWorker key fun worker =>
        if worker.stage = .fetching then
          if ok && (s.contents key).hasAgentDir then some (s.setStage key worker .building)
          else some (s.setStage key worker .failing)
        else none
  | .built key ok =>
      s.byWorker key fun worker =>
        if worker.stage = .building then
          if ok then
            let finished := s.setStage key worker .finishing
            some { finished with outputs := (key, s.contents key) :: s.outputs }
          else some (s.setStage key worker .failing)
        else none
  | .touch key =>
      s.byWorker key fun worker =>
        if worker.stage = .finishing then
          some ((s.setTree key (some (s.contents key).touched)).unlock key)
        else none
  | .kill pid => some { s with locks := s.locks.filter fun entry => entry.2.pid ≠ pid }

end TreeFiles

end A2aItk.Launcher
