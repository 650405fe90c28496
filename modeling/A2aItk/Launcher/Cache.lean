import A2aItk.Python.Dict
import A2aItk.Transition.Runs
import Mathlib.Logic.Function.Basic

/-!
# The checkout cache

`launcher/cache.py`, shared by any number of processes: trees, the pin files next
to them, and the count of pins each process keeps in memory.

## Implementation notes

What is done under a key's lock is one step. Outside every lock are the unlinking
of a pin file by `release` and the readings that `evict` decides on. Time is
counted in ticks. The callers that were handed a tree are part of the state.
-/

namespace A2aItk.Launcher

open Python

/-- The number of a process. -/
abbrev Pid := Nat

/-- The settings of the cache. -/
structure Config where
  runDeadline : Nat
  diskBudget : Nat
  treeTtl : Nat

/-- A tree on disk; `builtAt` is the time of its sentinel. -/
structure Tree where
  size : Nat
  builtAt : Option Nat
  deriving DecidableEq

/-- A caller that was handed a tree and has not released it. -/
structure Holder (κ : Type*) where
  pid : Pid
  key : κ
  pinnedAt : Nat
  deriving DecidableEq

/-- A pin file that a release has still to unlink: whose thread, and which file. -/
structure Unlink (κ : Type*) where
  thread : Pid
  pid : Pid
  key : κ
  deriving DecidableEq

/-- A running `evict`, which holds the global lock. -/
structure Evictor (κ : Type*) where
  pid : Pid
  now : Nat
  total : Int
  keys : List κ
  target : Option κ := none
  evicted : List κ := []

/-- Everything that processes share: the clock, who is alive, counts and files of pins, the trees,
and what is going on. The holders are those a tree was handed to, kept for what is proved of them.
-/
structure Cache (κ : Type*) where
  now : Nat
  alive : Pid → Bool
  pinRefs : Pid → κ → Nat
  pins : κ → Dict Pid Nat
  trees : κ → Option Tree
  unlinking : List (Unlink κ)
  holders : List (Holder κ)
  evictor : Option (Evictor κ)

variable {κ : Type*} [DecidableEq κ]

namespace Cache

section Pins

variable (s : Cache κ) (pid : Pid) (key : κ)

/-- The count of a process for a key is this one. -/
def setRefs (n : Nat) : Cache κ :=
  { s with pinRefs := Function.update s.pinRefs pid (Function.update (s.pinRefs pid) key n) }

/-- The pin file of a process is written, or touched. -/
def writePin : Cache κ :=
  { s with pins := Function.update s.pins key ((s.pins key).set pid s.now) }

/-- The pin file of a process is removed. -/
def unlinkPin : Cache κ :=
  { s with pins := Function.update s.pins key ((s.pins key).erase pid) }

/-- The tree of the key is this one. -/
def setTree (tree : Option Tree) : Cache κ :=
  { s with trees := Function.update s.trees key tree }

/-- Only the first pin of a process writes the file. -/
def pin : Cache κ :=
  let counted := s.setRefs pid key (s.pinRefs pid key + 1)
  if s.pinRefs pid key + 1 > 1 then counted else counted.writePin pid key

/-- The part of `_unpin` under `_pin_refs_lock`, and whether the file goes. -/
def unpinCount : Cache κ × Bool :=
  if s.pinRefs pid key = 0 then (s, false)
  else (s.setRefs pid key (s.pinRefs pid key - 1), s.pinRefs pid key - 1 = 0)

/-- `_unpin`: the file is removed with the last count. -/
def unpin : Cache κ :=
  let (counted, last) := s.unpinCount pid key
  if last then counted.unlinkPin pid key else counted

/-- A pin that counts: its process is alive, and it is younger than the deadline. -/
def livePin (config : Config) (entry : Pid × Nat) : Bool :=
  s.alive entry.1 && s.now < entry.2 + config.runDeadline

/-- Whether any live run holds the key; other pins are reclaimed. -/
def hasLivePin (config : Config) : Cache κ × Bool :=
  ({ s with pins := Function.update s.pins key ((s.pins key).filter (s.livePin config)) },
    (s.pins key).entries.any (s.livePin config))

/-- `_clear_pins`. -/
def clearPins : Cache κ := { s with pins := Function.update s.pins key Dict.empty }

end Pins

/-- How fetching and building end, where there is no tree to reuse. -/
inductive Build
  | built (size : Nat)
  | failed

/-- The tree of the key has its sentinel. -/
def isBuilt (s : Cache κ) (key : κ) : Bool := (s.trees key).any (·.builtAt.isSome)

/-- The tree is handed to a process. -/
def hand (s : Cache κ) (pid : Pid) (key : κ) : Cache κ :=
  { s with holders := ⟨pid, key, s.now⟩ :: s.holders }

/-- Under the key's lock: pin, reuse a complete tree or build one. -/
def checkoutAndBuild (s : Cache κ) (pid : Pid) (key : κ) (build : Build) : Cache κ :=
  let pinned := s.pin pid key
  if pinned.isBuilt key then pinned.hand pid key
  else match build with
    | .built size => (pinned.setTree key (some ⟨size, some s.now⟩)).hand pid key
    | .failed => (pinned.setTree key none).unpin pid key

/-- The first half of `release`, by a thread of `thread`: what is left is to
unlink the file. -/
def release (s : Cache κ) (thread pid : Pid) (key : κ) : Cache κ :=
  let (counted, last) := if pid = thread then s.unpinCount pid key else (s, true)
  if last then { counted with unlinking := ⟨thread, pid, key⟩ :: counted.unlinking } else counted

section Evict

variable (s : Cache κ) (config : Config) (evictor : Evictor κ)

/-- The age of a tree without a sentinel is infinite. -/
def expired (key : κ) : Bool :=
  match (s.trees key).bind Tree.builtAt with
  | some builtAt => config.treeTtl + builtAt < evictor.now
  | none => true

/-- Take the next key of the snapshot, and decide whether it has to go. -/
def consider (key : κ) (rest : List κ) : Evictor κ :=
  let needEvict := evictor.total > config.diskBudget || s.expired config evictor key
  { evictor with keys := rest, target := if needEvict then some key else none }

/-- Under the key's lock: keep a tree with a live pin, remove any other. -/
def visit (key : κ) : Cache κ :=
  let (reclaimed, live) := s.hasLivePin key config
  if live then { reclaimed with evictor := some { evictor with target := none } }
  else
    let size := ((s.trees key).map Tree.size).getD 0
    let cleared := (reclaimed.setTree key none).clearPins key
    { cleared with
      evictor := some { evictor with
        target := none
        total := evictor.total - size
        evicted := evictor.evicted ++ [key] } }

end Evict

/-- The death of a process: what it had in memory is gone, the files stay. -/
def die (s : Cache κ) (pid : Pid) : Cache κ :=
  { s with
    alive := Function.update s.alive pid false
    pinRefs := Function.update s.pinRefs pid fun _ => 0
    unlinking := s.unlinking.filter (·.thread ≠ pid)
    holders := s.holders.filter (·.pid ≠ pid)
    evictor := s.evictor.filter (·.pid ≠ pid) }

end Cache

/-- What can happen next. -/
inductive Action (κ : Type*)
  | tick (ticks : Nat)
  | start (pid : Pid)
  | die (pid : Pid)
  | checkout (pid : Pid) (key : κ) (build : Cache.Build)
  /-- a caller gives its tree back -/
  | release (holder : Holder κ)
  /-- a release by no holder, or one that names a process -/
  | releaseExtra (thread pid : Pid) (key : κ)
  | unlink (pending : Unlink κ)
  /-- the keys and their total size are read outside every lock -/
  | evictStart (pid : Pid) (keys : List κ) (total : Int)
  | evictConsider
  /-- `got` is false where another thread holds the key's lock -/
  | evictVisit (got : Bool)
  | evictEnd

namespace Cache

/-- One step of some process. -/
def step (config : Config) (s : Cache κ) : Action κ → Option (Cache κ)
  | .tick ticks => some { s with now := s.now + ticks }
  | .start pid =>
      if s.alive pid then none else some { s with alive := Function.update s.alive pid true }
  | .die pid => if s.alive pid then some (s.die pid) else none
  | .checkout pid key build =>
      if s.alive pid then some (s.checkoutAndBuild pid key build) else none
  | .release holder =>
      if holder ∈ s.holders then
        let left := { s with holders := s.holders.erase holder }
        some (left.release holder.pid holder.pid holder.key)
      else none
  | .releaseExtra thread pid key =>
      if s.alive thread then some (s.release thread pid key) else none
  | .unlink pending =>
      if pending ∈ s.unlinking then
        let left := { s with unlinking := s.unlinking.erase pending }
        some (left.unlinkPin pending.pid pending.key)
      else none
  | .evictStart pid keys total =>
      match s.evictor with
      | some _ => none
      | none =>
          if s.alive pid then some { s with evictor := some ⟨pid, s.now, total, keys, none, []⟩ }
          else none
  | .evictConsider =>
      match s.evictor with
      | some evictor =>
          match evictor.keys, evictor.target with
          | key :: rest, none =>
              some { s with evictor := some (s.consider config evictor key rest) }
          | _, _ => none
      | none => none
  | .evictVisit got =>
      match s.evictor with
      | some evictor =>
          match evictor.target with
          | some key =>
              if got then some (s.visit config evictor key)
              else some { s with evictor := some { evictor with target := none } }
          | none => none
      | none => none
  | .evictEnd =>
      match s.evictor with
      | some evictor =>
          if evictor.keys.isEmpty && evictor.target.isNone then some { s with evictor := none }
          else none
      | none => none

end Cache

end A2aItk.Launcher
