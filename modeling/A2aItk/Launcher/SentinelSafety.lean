import A2aItk.Launcher.TreeFiles

/-!
# A tree with a sentinel is complete

What a checkout returns without building is the output of a successful fetch and
build, in every run in which no process is killed while it works on a tree that
has a sentinel and is not complete.

## Implementation notes

The invariant says, for each stage of the thread that holds a key's lock, what is
known of the tree. Nothing is known while it is fetched, built or removed: there
the lock keeps others away, and only a kill can show the tree to them.
-/

namespace A2aItk.Launcher

open Python Transition

variable {κ : Type*} [DecidableEq κ] {s t : TreeFiles κ}

/-- The tree is what a successful fetch and build for the key have left, with its
sentinel. -/
def CompleteTree (s : TreeFiles κ) (key : κ) (tree : Contents) : Prop :=
  ∃ output, (key, output) ∈ s.outputs ∧ tree = output.touched

/-- Every tree that was returned without building was complete. -/
def ReturnsComplete (s : TreeFiles κ) : Prop :=
  ∀ p ∈ s.returned, CompleteTree s p.1 p.2

/-- The stages in which a tree may be incomplete, whatever it contains. -/
def Stage.unsettled : Stage → Bool
  | fetching | building | failing | evicting true => true
  | checking | clearing | finishing | evicting false => false

/-- No process is killed while it fetches, builds or has begun to remove a tree
that contains the sentinel. -/
def CleanKills (s : TreeFiles κ) : FileAction κ → Prop
  | .kill pid => ∀ entry ∈ s.locks.entries, entry.2.pid = pid →
      entry.2.stage.unsettled = true → (s.contents entry.1).hasSentinel = false
  | _ => True

instance (s : TreeFiles κ) : (action : FileAction κ) → Decidable (CleanKills s action)
  | .kill pid => inferInstanceAs (Decidable (∀ entry ∈ s.locks.entries, entry.2.pid = pid →
      entry.2.stage.unsettled = true → (s.contents entry.1).hasSentinel = false))
  | .lock .. | .check _ | .remove .. | .removed _ | .write .. | .delete .. | .fetched ..
  | .built .. | .touch _ | .evict .. => isTrue trivial

/-- What is known of a tree at a stage of the thread that has its lock; `complete`
are the outputs for the key. -/
def KeyOk (complete : Contents → Prop) (tree : Contents) : Option Stage → Prop
  | none | some .checking | some (.evicting false) =>
      tree.hasSentinel = true → ∃ output, complete output ∧ tree = output.touched
  | some .clearing => tree.hasSentinel = false
  | some .finishing => complete tree
  | some .fetching | some .building | some .failing | some (.evicting true) => True

/-- How far the worker that holds the lock of a key has come. -/
def stageOf (s : TreeFiles κ) (key : κ) : Option Stage := (s.locks.get? key).map Worker.stage

/-- The build of this key has once put out these files. -/
def outputFor (s : TreeFiles κ) (key : κ) (output : Contents) : Prop := (key, output) ∈ s.outputs

/-- The invariant: every tree fits the stage of its worker, and what was returned is complete. -/
structure FilesOk (s : TreeFiles κ) : Prop where
  keys : ∀ key, KeyOk (outputFor s key) (s.contents key) (stageOf s key)
  returned : ReturnsComplete s

section Parts

variable {key k : κ} {tree : Option Contents} {worker : Worker} {stage : Stage}

/-- An empty tree has no sentinel. -/
theorem Contents.not_hasSentinel_empty : Contents.hasSentinel Dict.empty = false := rfl

/-- Removing files brings no sentinel back. -/
theorem Contents.not_hasSentinel_erase {c : Contents} (path : Path)
    (h : c.hasSentinel = false) : Contents.hasSentinel (c.erase path) = false := by
  simp only [Contents.hasSentinel, decide_eq_false_iff_not] at h ⊢
  exact fun hin => h ((List.filter_sublist.map Prod.fst).subset hin)

/-- The files of a tree that has been written. -/
@[simp] theorem contents_setTree_self :
    (s.setTree key tree).contents key = tree.getD Dict.empty := by
  simp [TreeFiles.contents, TreeFiles.setTree]

/-- Other trees are left alone. -/
theorem contents_setTree_of_ne (h : k ≠ key) : (s.setTree key tree).contents k = s.contents k := by
  simp [TreeFiles.contents, TreeFiles.setTree, h]

/-- The worker of the key is at the new stage. -/
@[simp] theorem stageOf_setStage_self :
    stageOf (s.setStage key worker stage) key = some stage := by
  simp [stageOf, TreeFiles.setStage]

/-- Other workers are where they were. -/
theorem stageOf_setStage_of_ne (h : k ≠ key) :
    stageOf (s.setStage key worker stage) k = stageOf s k := by
  simp [stageOf, TreeFiles.setStage, Dict.get?_set_of_ne _ _ h]

/-- Nobody works on a key that is unlocked. -/
@[simp] theorem stageOf_unlock_self : stageOf (s.unlock key) key = none := by
  simp [stageOf, TreeFiles.unlock]

/-- Other workers are where they were. -/
theorem stageOf_unlock_of_ne (h : k ≠ key) : stageOf (s.unlock key) k = stageOf s k := by
  simp [stageOf, TreeFiles.unlock, Dict.get?_erase_of_ne _ h]

/-- More outputs make no tree worse. -/
theorem KeyOk.mono {complete complete' : Contents → Prop} {c : Contents} {stage : Option Stage}
    (hle : ∀ output, complete output → complete' output) (h : KeyOk complete c stage) :
    KeyOk complete' c stage := by
  have hseen : (c.hasSentinel = true → ∃ output, complete output ∧ c = output.touched) →
      c.hasSentinel = true → ∃ output, complete' output ∧ c = output.touched := by
    intro hc hs
    obtain ⟨output, hout, heq⟩ := hc hs
    exact ⟨output, hle output hout, heq⟩
  match stage with
  | none | some .checking | some (.evicting false) => exact hseen h
  | some .clearing => exact h
  | some .finishing => exact hle c h
  | some .fetching | some .building | some .failing | some (.evicting true) => trivial

end Parts

namespace FilesOk

variable {key : κ} {worker : Worker}

/-- A step at one key leaves the others as they are. -/
theorem at_key (h : FilesOk s) (key : κ)
    (hcontents : ∀ k, k ≠ key → t.contents k = s.contents k)
    (hstages : ∀ k, k ≠ key → stageOf t k = stageOf s k)
    (houtputs : ∀ p ∈ s.outputs, p ∈ t.outputs)
    (hkey : KeyOk (outputFor t key) (t.contents key) (stageOf t key))
    (hreturned : ∀ p ∈ t.returned, p ∈ s.returned ∨ CompleteTree t p.1 p.2) : FilesOk t := by
  refine ⟨fun k => ?_, fun p hp => ?_⟩
  · by_cases hk : k = key
    · exact hk ▸ hkey
    · rw [hcontents k hk, hstages k hk]
      exact (h.keys k).mono fun output hout => houtputs _ hout
  · obtain hold | hnew := hreturned p hp
    · obtain ⟨output, hout, heq⟩ := h.returned p hold
      exact ⟨output, houtputs _ hout, heq⟩
    · exact hnew

/-- A worker may go on where its tree fits the next stage. -/
theorem setStage (h : FilesOk s) {stage : Stage}
    (hkey : KeyOk (outputFor s key) (s.contents key) (some stage)) :
    FilesOk (s.setStage key worker stage) :=
  h.at_key key (fun _ _ => rfl) (fun _ hk => stageOf_setStage_of_ne hk) (fun _ hp => hp)
    (by rw [stageOf_setStage_self]; exact hkey) fun _ hp => Or.inl hp

/-- A worker may leave where its tree fits no stage at all. -/
theorem unlock (h : FilesOk s) (hkey : KeyOk (outputFor s key) (s.contents key) none) :
    FilesOk (s.unlock key) :=
  h.at_key key (fun _ _ => rfl) (fun _ hk => stageOf_unlock_of_ne hk) (fun _ hp => hp)
    (by rw [stageOf_unlock_self]; exact hkey) fun _ hp => Or.inl hp

/-- A worker may write where the tree fits its stage. -/
theorem setTree (h : FilesOk s) {tree : Option Contents}
    (hkey : KeyOk (outputFor s key) (tree.getD Dict.empty) (stageOf s key)) :
    FilesOk (s.setTree key tree) :=
  h.at_key key (fun _ hk => contents_setTree_of_ne hk) (fun _ _ => rfl) (fun _ hp => hp)
    (by rw [contents_setTree_self]; exact hkey) fun _ hp => Or.inl hp

/-- What the invariant says of a key that is being worked on. -/
theorem key_of_worker (h : FilesOk s) (hworker : s.locks.get? key = some worker) :
    KeyOk (outputFor s key) (s.contents key) (some worker.stage) := by
  have hkey := h.keys key
  rwa [stageOf, hworker] at hkey

/-- The sentinel is looked for first, and decides which way the worker goes. -/
theorem check (h : FilesOk s) (hworker : s.locks.get? key = some worker)
    (hstage : worker.stage = .checking) : FilesOk (s.check key worker) := by
  have hkey := h.key_of_worker hworker
  rw [hstage] at hkey
  unfold TreeFiles.check
  split
  · exact h.setStage trivial
  · rename_i tree htree
    have hcontents : s.contents key = tree := by rw [TreeFiles.contents, htree]; rfl
    rw [hcontents] at hkey
    split
    · rename_i hsentinel
      have hunlocked : FilesOk (s.unlock key) := h.unlock (by rw [hcontents]; exact hkey)
      refine ⟨hunlocked.keys, List.forall_mem_cons.mpr ⟨hkey hsentinel, h.returned⟩⟩
    · rename_i hsentinel
      refine h.setStage ?_
      rw [hcontents]
      exact Bool.eq_false_iff.mpr hsentinel

/-- The tree of a key that has gone is known to lack the sentinel. -/
theorem setTree_none (h : FilesOk s) (hworker : s.locks.get? key = some worker)
    (hstage : worker.stage ≠ .finishing) : FilesOk (s.setTree key none) := by
  refine h.setTree ?_
  rw [stageOf, hworker]
  change KeyOk _ Dict.empty (some worker.stage)
  match hmatch : worker.stage with
  | .checking | .evicting false => exact fun hs => absurd hs (by decide)
  | .clearing => rfl
  | .finishing => exact absurd hmatch hstage
  | .fetching | .building | .failing | .evicting true => trivial

/-- A removal takes one file after the other; the tree may lose its sentinel at any of them. -/
theorem remove (h : FilesOk s) (hworker : s.locks.get? key = some worker) {stage : Stage}
    (hstage : TreeFiles.removing worker.stage = some stage) (path : Path) :
    FilesOk ((s.setTree key (some ((s.contents key).erase path))).setStage key worker stage) := by
  have hkey := h.key_of_worker hworker
  refine h.at_key key (fun k hk => ?_) (fun k hk => ?_) (fun _ hp => hp) ?_ fun _ hp => Or.inl hp
  · exact contents_setTree_of_ne hk
  · exact stageOf_setStage_of_ne hk
  · rw [stageOf_setStage_self]
    have hcontents : ((s.setTree key (some ((s.contents key).erase path))).setStage key worker
        stage).contents key = (s.contents key).erase path := contents_setTree_self
    rw [hcontents]
    match hmatch : worker.stage with
    | .clearing =>
        rw [hmatch] at hkey hstage
        obtain rfl := Option.some.inj hstage
        exact Contents.not_hasSentinel_erase path hkey
    | .failing | .evicting _ =>
        rw [hmatch] at hstage
        obtain rfl := Option.some.inj hstage
        trivial
    | .checking | .fetching | .building | .finishing =>
        rw [hmatch] at hstage
        cases hstage

/-- Once the tree is gone, a build begins anew and the others are done. -/
theorem removed (h : FilesOk s) (hworker : s.locks.get? key = some worker)
    (hstep : (match worker.stage with
      | .clearing => some ((s.setTree key none).setStage key worker .fetching)
      | .failing | .evicting _ => some ((s.setTree key none).unlock key)
      | _ => none) = some t) : FilesOk t := by
  have hgone : KeyOk (outputFor (s.setTree key none) key) ((s.setTree key none).contents key)
      none := by
    rw [contents_setTree_self]
    exact fun hs => absurd hs (by decide)
  split at hstep
  · rename_i hstage
    obtain rfl := Option.some.inj hstep
    exact (h.setTree_none hworker (by rw [hstage]; decide)).setStage trivial
  · rename_i hstage
    obtain rfl := Option.some.inj hstep
    exact (h.setTree_none hworker (by rw [hstage]; decide)).unlock hgone
  · rename_i hstage
    obtain rfl := Option.some.inj hstep
    exact (h.setTree_none hworker (by rw [hstage]; simp)).unlock hgone
  · cases hstep

/-- Fetching and building write what they like. -/
theorem write (h : FilesOk s) (hworker : s.locks.get? key = some worker)
    (hstage : worker.stage = .fetching ∨ worker.stage = .building) (tree : Option Contents) :
    FilesOk (s.setTree key tree) := by
  refine h.setTree ?_
  rw [stageOf, hworker]
  obtain hstage | hstage := hstage
  · rw [Option.map_some, hstage]
    trivial
  · rw [Option.map_some, hstage]
    trivial

/-- A build that ends well leaves an output of its key. -/
theorem built (h : FilesOk s) :
    FilesOk { s.setStage key worker .finishing with
      outputs := (key, s.contents key) :: s.outputs } := by
  refine h.at_key key (fun _ _ => rfl) (fun k hk => ?_) (fun _ hp => List.mem_cons_of_mem _ hp) ?_
    fun _ hp => Or.inl hp
  · exact stageOf_setStage_of_ne hk
  · have hstage : stageOf { s.setStage key worker .finishing with
        outputs := (key, s.contents key) :: s.outputs } key = some .finishing :=
      stageOf_setStage_self
    rw [hstage]
    exact List.mem_cons_self

/-- The sentinel is written last, on files the build has put out. -/
theorem touch (h : FilesOk s) (hworker : s.locks.get? key = some worker)
    (hstage : worker.stage = .finishing) :
    FilesOk ((s.setTree key (some (s.contents key).touched)).unlock key) := by
  have hkey := h.key_of_worker hworker
  rw [hstage] at hkey
  refine h.at_key key (fun k hk => ?_) (fun k hk => ?_) (fun _ hp => hp) ?_ fun _ hp => Or.inl hp
  · exact contents_setTree_of_ne hk
  · exact stageOf_unlock_of_ne hk
  · rw [stageOf_unlock_self]
    have hcontents : ((s.setTree key (some (s.contents key).touched)).unlock key).contents key =
        (s.contents key).touched := contents_setTree_self
    rw [hcontents]
    exact fun _ => ⟨s.contents key, hkey, rfl⟩

/-- A kill that spares unsettled trees with a sentinel shows no incomplete tree. -/
theorem kill (h : FilesOk s) {pid : Pid} (hclean : CleanKills s (.kill pid)) :
    FilesOk { s with locks := s.locks.filter fun entry => entry.2.pid ≠ pid } := by
  refine ⟨fun k => ?_, h.returned⟩
  have hkey := h.keys k
  cases hlock : s.locks.get? k with
  | none =>
      have hnone : (s.locks.filter fun entry => entry.2.pid ≠ pid).get? k = none := by
        rw [Option.eq_none_iff_forall_ne_some]
        intro worker hworker
        exact absurd (Dict.get?_filter_eq_some_iff.mp hworker).1 (by simp [hlock])
      rw [stageOf, hlock] at hkey
      rw [stageOf, hnone]
      exact hkey
  | some worker =>
      rw [stageOf, hlock] at hkey
      by_cases hpid : worker.pid = pid
      · -- the lock is dropped as the tree stands
        have hnone : (s.locks.filter fun entry => entry.2.pid ≠ pid).get? k = none := by
          rw [Option.eq_none_iff_forall_ne_some]
          intro worker' hworker'
          obtain ⟨hin, hkept⟩ := Dict.get?_filter_eq_some_iff.mp hworker'
          obtain rfl := Option.some.inj (hlock.symm.trans hin)
          simp [hpid] at hkept
        have hspared := hclean (k, worker) (Dict.get?_eq_some_iff.mp hlock) hpid
        rw [stageOf, hnone]
        change KeyOk _ (s.contents k) none
        have hkey : KeyOk (outputFor s k) (s.contents k) (some worker.stage) := hkey
        intro hsentinel
        cases hmatch : worker.stage with
        | checking =>
            rw [hmatch] at hkey
            exact hkey hsentinel
        | clearing =>
            rw [hmatch] at hkey
            exact absurd hsentinel (by simp [show (s.contents k).hasSentinel = false from hkey])
        | finishing =>
            rw [hmatch] at hkey
            exact ⟨s.contents k, hkey, by rw [Contents.touched, if_pos hsentinel]⟩
        | evicting emptied =>
            cases emptied with
            | false =>
                rw [hmatch] at hkey
                exact hkey hsentinel
            | true =>
                rw [hmatch] at hspared
                exact absurd hsentinel (by simp [hspared rfl])
        | fetching | building | failing =>
            rw [hmatch] at hspared
            exact absurd hsentinel (by simp [hspared rfl])
      · have hsome : (s.locks.filter fun entry => entry.2.pid ≠ pid).get? k = some worker :=
          Dict.get?_filter_eq_some_iff.mpr ⟨hlock, by simpa using hpid⟩
        rw [stageOf, hsome]
        exact hkey

/-- Every step that is not an unclean kill keeps the files in order. -/
theorem step (h : FilesOk s) {action : FileAction κ} (hguard : CleanKills s action)
    (hstep : s.step action = some t) : FilesOk t := by
  cases action with
  | lock pid key =>
      obtain ⟨hfree, hstep⟩ := Option.ite_none_right_eq_some.mp hstep
      obtain rfl := Option.some.inj hstep
      have hkey := h.keys key
      rw [stageOf, Option.isNone_iff_eq_none.mp hfree] at hkey
      exact h.setStage hkey
  | evict pid key =>
      obtain ⟨hfree, hstep⟩ := Option.ite_none_right_eq_some.mp hstep
      obtain rfl := Option.some.inj hstep
      have hkey := h.keys key
      rw [stageOf, Option.isNone_iff_eq_none.mp hfree] at hkey
      exact h.setStage hkey
  | check key =>
      obtain ⟨worker, hworker, hstep⟩ := Option.bind_eq_some_iff.mp hstep
      obtain ⟨hstage, hstep⟩ := Option.ite_none_right_eq_some.mp hstep
      obtain rfl := Option.some.inj hstep
      exact h.check hworker hstage
  | remove key path =>
      obtain ⟨worker, hworker, hstep⟩ := Option.bind_eq_some_iff.mp hstep
      obtain ⟨-, hstep⟩ := Option.ite_none_right_eq_some.mp hstep
      obtain ⟨stage, hstage, rfl⟩ := Option.map_eq_some_iff.mp hstep
      exact h.remove hworker hstage path
  | removed key =>
      obtain ⟨worker, hworker, hstep⟩ := Option.bind_eq_some_iff.mp hstep
      obtain ⟨-, hstep⟩ := Option.ite_none_right_eq_some.mp hstep
      exact h.removed hworker hstep
  | write key path content =>
      obtain ⟨worker, hworker, hstep⟩ := Option.bind_eq_some_iff.mp hstep
      obtain ⟨hstage, hstep⟩ := Option.ite_none_right_eq_some.mp hstep
      obtain rfl := Option.some.inj hstep
      exact h.write hworker hstage _
  | delete key path =>
      obtain ⟨worker, hworker, hstep⟩ := Option.bind_eq_some_iff.mp hstep
      obtain ⟨hstage, hstep⟩ := Option.ite_none_right_eq_some.mp hstep
      obtain rfl := Option.some.inj hstep
      exact h.write hworker hstage _
  | fetched key ok =>
      obtain ⟨worker, hworker, hstep⟩ := Option.bind_eq_some_iff.mp hstep
      obtain ⟨-, hstep⟩ := Option.ite_none_right_eq_some.mp hstep
      split at hstep
      · obtain rfl := Option.some.inj hstep
        exact h.setStage trivial
      · obtain rfl := Option.some.inj hstep
        exact h.setStage trivial
  | built key ok =>
      obtain ⟨worker, hworker, hstep⟩ := Option.bind_eq_some_iff.mp hstep
      obtain ⟨-, hstep⟩ := Option.ite_none_right_eq_some.mp hstep
      split at hstep
      · obtain rfl := Option.some.inj hstep
        exact h.built
      · obtain rfl := Option.some.inj hstep
        exact h.setStage trivial
  | touch key =>
      obtain ⟨worker, hworker, hstep⟩ := Option.bind_eq_some_iff.mp hstep
      obtain ⟨hstage, hstep⟩ := Option.ite_none_right_eq_some.mp hstep
      obtain rfl := Option.some.inj hstep
      exact h.touch hworker hstage
  | kill pid =>
      obtain rfl := Option.some.inj hstep
      exact h.kill hguard

end FilesOk

/-- Nobody works on the cache, and a tree with a sentinel is complete. -/
structure Quiet (s : TreeFiles κ) : Prop where
  unlocked : s.locks.entries = []
  unreturned : s.returned = []
  complete : ∀ key, (s.contents key).hasSentinel = true → CompleteTree s key (s.contents key)

/-- A cache nobody works on has complete trees. -/
theorem Quiet.filesOk (h : Quiet s) : FilesOk s := by
  refine ⟨fun key => ?_, by simp [ReturnsComplete, h.unreturned]⟩
  have hnone : s.locks.get? key = none := by simp [Dict.get?, h.unlocked]
  rw [stageOf, hnone]
  exact h.complete key

/-- Where kills are clean, every tree that a checkout returns without building is
the complete output of a fetch and a build for its key. -/
theorem returned_trees_complete {actions : List (FileAction κ)} (hs : Quiet s)
    (hmeets : Meets TreeFiles.step CleanKills s actions)
    (hrun : run TreeFiles.step s actions = some t) : ReturnsComplete t := by
  have hok : FilesOk t :=
    invariant (fun _ _ _ hinv hguard hstep => FilesOk.step hinv hguard hstep) hs.filesOk hmeets
      hrun
  exact hok.returned

section Examples

/-- A cache that has no tree and no worker. -/
def emptyFiles : TreeFiles String := ⟨fun _ => none, Dict.empty, [], []⟩

theorem emptyFiles_quiet : Quiet emptyFiles where
  unlocked := rfl
  unreturned := rfl
  complete key h := by
    have hnone : (emptyFiles.contents key).hasSentinel = false := Contents.not_hasSentinel_empty
    rw [hnone] at h
    cases h

/-- One build of one key. -/
def buildOnce : List (FileAction String) :=
  [.lock 1 "k", .check "k", .write "k" ["itk", "main.py"] "run", .fetched "k" true,
    .built "k" true, .touch "k"]

/-- An eviction is killed before it removes anything, and the tree is reused. -/
def reuse : List (FileAction String) :=
  buildOnce ++ [.evict 2 "k", .kill 2, .lock 1 "k", .check "k"]

theorem returned_trees_complete_reuse :
    ∃ t, run TreeFiles.step emptyFiles reuse = some t ∧ t.returned ≠ [] ∧ ReturnsComplete t := by
  have hmeets : Meets TreeFiles.step CleanKills emptyFiles reuse := by decide
  exact ⟨_, rfl, by decide, returned_trees_complete emptyFiles_quiet hmeets rfl⟩

/-- An eviction is killed after it removed an entry but not the sentinel; and a
fetch that brings an entry of the sentinel's name is killed. -/
theorem returned_tree_incomplete :
    (∃ t, run TreeFiles.step emptyFiles (buildOnce ++ [.evict 2 "k",
        .remove "k" ["itk", "main.py"], .kill 2, .lock 1 "k", .check "k"]) = some t ∧
      ¬ ReturnsComplete t) ∧
    ∃ t, run TreeFiles.step emptyFiles [.lock 1 "k", .check "k", .write "k" sentinelPath "",
        .kill 1, .lock 2 "k", .check "k"] = some t ∧
      ¬ ReturnsComplete t := by
  constructor
  · refine ⟨_, rfl, fun h => ?_⟩
    obtain ⟨output, hout, heq⟩ := h _ (List.mem_singleton_self _)
    obtain ⟨-, rfl⟩ := Prod.mk.inj (List.mem_singleton.mp hout)
    exact absurd (congrArg (fun c : Contents => c.entries.length) heq) (by decide)
  · refine ⟨_, rfl, fun h => ?_⟩
    obtain ⟨output, hout, -⟩ := h _ (List.mem_singleton_self _)
    cases hout

end Examples

end A2aItk.Launcher
