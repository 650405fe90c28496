import A2aItk.Launcher.Cache
import Mathlib.Data.List.Sort
import Mathlib.Data.Prod.Lex

/-!
# Eviction, one reading at a time

`evict` and `_lru_keys` of `launcher/cache.py`, with everything other processes can do
between two of their readings: build under a key's lock, pin and release.

## Implementation notes

The names are listed at once; the sentinels, the sizes and each age are read one by one,
without the lock of their key. A builder without a tree to reuse changes the tree as it
likes, to the fetched, built and touched one or to none. Only the first pin of a process
writes its file, and a release may take any file away. What is done between locking a key
and unlinking its tree is one step, and the unlinking another.
-/

namespace A2aItk.Launcher

open Python

/-- Where the thread is that holds a key's lock to build. -/
inductive BuilderStage
  | locked
  | pinned
  /-- there was no sentinel -/
  | rebuilding
  deriving DecidableEq

/-- The process that holds the lock of a key, and how far it has come. -/
structure Builder where
  pid : Pid
  stage : BuilderStage
  deriving DecidableEq

/-- Where `evict` is. -/
inductive EvictStage (κ : Type*)
  | starting
  /-- in `_lru_keys`, with the sentinels of these still to be read -/
  | reading (names : List κ)
  /-- the sizes of these are still to be added -/
  | summing (names : List κ)
  | choosing (keys : List κ)
  /-- the key has to go, and its lock is to be tried -/
  | locking (key : κ) (keys : List κ)
  /-- the key is locked, and has no live pin -/
  | removing (key : κ) (keys : List κ)

/-- A running `evict`, which holds the global lock. -/
structure Eviction (κ : Type*) where
  pid : Pid
  now : ℕ
  stage : EvictStage κ
  /-- the entries of `_lru_keys`: the time of a key's sentinel, and the key -/
  entries : List (ℕ × κ)
  total : ℤ
  /-- the keys removed, with the times of their sentinels -/
  evicted : List (ℕ × κ)
  /-- the keys that were locked or pinned when visited -/
  spared : List κ

/-- The disk, and the threads at work on it. -/
structure Slots (κ : Type*) where
  now : ℕ
  alive : Pid → Bool
  pins : κ → Dict Pid ℕ
  trees : Dict κ Tree
  builders : Dict κ Builder
  evictor : Option (Eviction κ)

/-- What may happen next. The actions of the evictor are its readings and writings one by one, in
the order of the code. -/
inductive SlotAction (κ : Type*)
  | tick (ticks : ℕ)
  | start (pid : Pid)
  | die (pid : Pid)
  /-- `checkout_and_build` acquires the key's lock -/
  | lock (pid : Pid) (key : κ)
  | pin (key : κ) (first : Bool)
  /-- `sentinel.exists()` -/
  | check (key : κ)
  | rebuild (key : κ) (tree : Option Tree)
  | leave (key : κ)
  /-- a release unlinks the pin file of a process -/
  | unlink (key : κ) (pid : Pid)
  | evictStart (pid : Pid)
  | evictList
  | evictRead (key : κ)
  | evictSort
  | evictSize
  | evictConsider
  | evictLock
  | evictRemove
  | evictEnd

/-- The sentinel's time, or 0.0 where there is none. -/
def sentinelTime (tree : Option Tree) : ℕ := (tree.bind Tree.builtAt).getD 0

/-- `_tree_size`. -/
def treeSize (tree : Option Tree) : ℕ := (tree.map Tree.size).getD 0

/-- The age of the tree exceeds the TTL; without a sentinel it is infinite. -/
def overAge (config : Config) (now : ℕ) (tree : Option Tree) : Bool :=
  match tree.bind Tree.builtAt with
  | some builtAt => config.treeTtl + builtAt < now
  | none => true

variable {κ : Type*} [LinearOrder κ]

/-- The order in which tuples sort. -/
def entryLe (a b : ℕ × κ) : Prop := toLex a ≤ toLex b

instance : DecidableRel (entryLe : ℕ × κ → ℕ × κ → Prop) := fun a b =>
  inferInstanceAs (Decidable (toLex a ≤ toLex b))

namespace Slots

variable (s : Slots κ) (config : Config) (evict : Eviction κ) (key : κ)

/-- The tree of the key is this one, or is gone. -/
def setTree (tree : Option Tree) : Slots κ :=
  match tree with
  | some tree => { s with trees := s.trees.set key tree }
  | none => { s with trees := s.trees.erase key }

/-- The pin files of the key are these. -/
def setPins (pins : Dict Pid ℕ) : Slots κ := { s with pins := Function.update s.pins key pins }

/-- The builder of the key has come this far. -/
def setBuilder (builder : Builder) : Slots κ :=
  { s with builders := s.builders.set key builder }

/-- The lock of the key is given back. -/
def unlock : Slots κ := { s with builders := s.builders.erase key }

/-- The key's lock is held by `evict`. -/
def removes : Bool :=
  s.evictor.any fun evict =>
    match evict.stage with
    | .removing k _ => k = key
    | _ => false

/-- The process is alive and its pin has not outlived a run. -/
def livePin (entry : Pid × ℕ) : Bool := s.alive entry.1 && s.now < entry.2 + config.runDeadline

/-- The total size of the trees that are present. -/
def total : ℕ := s.trees.total Tree.size

/-- Whoever dies drops its locks. -/
def die (pid : Pid) : Slots κ :=
  { s with
    alive := Function.update s.alive pid false
    builders := s.builders.filter fun entry => entry.2.pid ≠ pid
    evictor := s.evictor.filter (·.pid ≠ pid) }

/-- Read one sentinel; what is no directory any more is passed over. -/
def read (names : List κ) : Eviction κ :=
  let left := { evict with stage := .reading (names.erase key) }
  match s.trees.get? key with
  | some tree => { left with entries := evict.entries ++ [(sentinelTime (some tree), key)] }
  | none => left

/-- Decide whether a key has to go. -/
def consider (keys : List κ) : Eviction κ :=
  if evict.total > config.diskBudget || overAge config evict.now (s.trees.get? key) then
    { evict with stage := .locking key keys }
  else { evict with stage := .choosing keys }

/-- The key is passed over. -/
def spare (keys : List κ) : Eviction κ :=
  { evict with stage := .choosing keys, spared := key :: evict.spared }

/-- Try the key's lock, and look for a live pin; other pins are reclaimed. -/
def tryLock (keys : List κ) : Slots κ :=
  if (s.builders.get? key).isSome then { s with evictor := some (spare evict key keys) }
  else
    let reclaimed := s.setPins key ((s.pins key).filter (s.livePin config))
    if (s.pins key).entries.any (s.livePin config) then
      { reclaimed with evictor := some (spare evict key keys) }
    else { reclaimed with evictor := some { evict with stage := .removing key keys } }

/-- The tree and its pins are removed, and its size is taken off the sum. -/
def remove (keys : List κ) : Slots κ :=
  { (s.setTree key none).setPins key Dict.empty with
    evictor := some { evict with
      stage := .choosing keys
      total := evict.total - treeSize (s.trees.get? key)
      evicted := evict.evicted ++ [(sentinelTime (s.trees.get? key), key)] } }

/-- One step of a running `evict`. -/
def advance : SlotAction κ → Option (Slots κ)
  | .evictList =>
      match evict.stage with
      | .starting => some { s with evictor := some { evict with stage := .reading s.trees.keys } }
      | _ => none
  | .evictRead key =>
      match evict.stage with
      | .reading names =>
          if key ∈ names then some { s with evictor := some (s.read evict key names) } else none
      | _ => none
  | .evictSort =>
      match evict.stage with
      | .reading [] =>
          let sorted := evict.entries.insertionSort entryLe
          some { s with evictor := some { evict with
            stage := .summing (sorted.map Prod.snd), entries := sorted, total := 0 } }
      | _ => none
  | .evictSize =>
      match evict.stage with
      | .summing (key :: names) =>
          some { s with evictor := some { evict with
            stage := .summing names, total := evict.total + treeSize (s.trees.get? key) } }
      | .summing [] =>
          some { s with evictor := some { evict with
            stage := .choosing (evict.entries.map Prod.snd) } }
      | _ => none
  | .evictConsider =>
      match evict.stage with
      | .choosing (key :: keys) =>
          some { s with evictor := some (s.consider config evict key keys) }
      | _ => none
  | .evictLock =>
      match evict.stage with
      | .locking key keys => some (s.tryLock config evict key keys)
      | _ => none
  | .evictRemove =>
      match evict.stage with
      | .removing key keys => some (s.remove evict key keys)
      | _ => none
  | .evictEnd =>
      match evict.stage with
      | .choosing [] => some { s with evictor := none }
      | _ => none
  | _ => none

/-- One step of some process. -/
def step (config : Config) (s : Slots κ) : SlotAction κ → Option (Slots κ)
  | .tick ticks => some { s with now := s.now + ticks }
  | .start pid =>
      if s.alive pid then none else some { s with alive := Function.update s.alive pid true }
  | .die pid => some (s.die pid)
  | .lock pid key =>
      if s.alive pid && (s.builders.get? key).isNone && !s.removes key then
        some (s.setBuilder key ⟨pid, .locked⟩)
      else none
  | .pin key first =>
      match s.builders.get? key with
      | some ⟨pid, .locked⟩ =>
          let pinned := s.setBuilder key ⟨pid, .pinned⟩
          some (if first then pinned.setPins key ((s.pins key).set pid s.now) else pinned)
      | _ => none
  | .check key =>
      match s.builders.get? key with
      | some ⟨pid, .pinned⟩ =>
          if (s.trees.get? key).any (·.builtAt.isSome) then some (s.unlock key)
          else some (s.setBuilder key ⟨pid, .rebuilding⟩)
      | _ => none
  | .rebuild key tree =>
      match s.builders.get? key with
      | some ⟨_, .rebuilding⟩ => some (s.setTree key tree)
      | _ => none
  | .leave key =>
      match s.builders.get? key with
      | some ⟨_, .rebuilding⟩ => some (s.unlock key)
      | _ => none
  | .unlink key pid => some (s.setPins key ((s.pins key).erase pid))
  | .evictStart pid =>
      if s.alive pid && s.evictor.isNone then
        some { s with evictor := some ⟨pid, s.now, .starting, [], 0, [], []⟩ }
      else none
  | action => s.evictor.bind fun evict => s.advance config evict action

end Slots

end A2aItk.Launcher
