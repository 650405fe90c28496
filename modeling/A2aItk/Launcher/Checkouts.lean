import A2aItk.Launcher.Cache
import A2aItk.Launcher.Errors
import A2aItk.Python.Text

/-!
# Calls of the checkout cache

`checkout_and_build` and `release` of `launcher/cache.py` as the calls of one process: what
fetcher and builder leave behind, and how each way out of a call ends it.

## Implementation notes

Nothing else touches the key during a call, and the file operations succeed. The states are
those of the cache, whose atomic checkout has the effect of a call.
-/

namespace A2aItk.Launcher

open Python

/-- The arguments of `checkout_and_build`. -/
structure Request where
  repo : String
  sha : String
  subdir : String

/-- What fetcher and builder do where there is no tree to reuse. -/
structure Work where
  fetch : Except Raised Unit
  fetchedTree : Option Tree
  /-- `tree / subdir` exists after the fetch -/
  agentDir : Bool
  build : Except Raised Unit
  builtTree : Option Tree

/-- The calls of the sessions of a process; `pid` is the argument of `release`. -/
inductive CacheCall
  | checkout (request : Request) (work : Work)
  | release (repo sha : String) (pid : Option Pid)

variable {κ : Type*} [DecidableEq κ]

namespace Cache

section Checkout

variable (s : Cache κ) (pid : Pid) (request : Request) (key : κ)

/-- The tree is removed and the pin dropped. -/
def giveUp : Cache κ := (s.setTree key none).unpin pid key

/-- `sentinel.touch()`. -/
def touch : Cache κ :=
  s.setTree key (some { (s.trees key).getD ⟨0, none⟩ with builtAt := some s.now })

/-- The handlers of a stage. -/
def handle (stage : FailureStage) (e : Raised) : Except Raised Unit × Cache κ :=
  match e with
  | .launcher _ => (.error e, s.giveUp pid key)
  -- neither `except LauncherError` nor `except Exception`
  | .interrupt => (.error e, s)
  | e => (.error (.launcher (.infraFailure request.repo request.sha stage e.text none)),
      s.giveUp pid key)

/-- `checkout_and_build`. -/
def checkout (work : Work) : Except Raised Unit × Cache κ :=
  let pinned := s.pin pid key
  if pinned.isBuilt key then (.ok (), pinned)
  else
    let fetched := pinned.setTree key work.fetchedTree
    match work.fetch with
    | .error e => fetched.handle pid request key .fetch e
    | .ok () =>
      if work.agentDir then
        let built := fetched.setTree key work.builtTree
        match work.build with
        | .error e => built.handle pid request key .build e
        | .ok () => (.ok (), built.touch key)
      else
        (.error (.launcher (.infraFailure request.repo request.sha .fetch none
          (some s!"subdir {Text.repr request.subdir} missing after fetch"))),
          fetched.giveUp pid key)

/-- `_unpin`, where `thread` is the process and `pid` the argument. -/
def unpinFor (thread : Pid) (pid : Option Pid) : Cache κ :=
  if pid.getD thread = thread then s.unpin thread key else s.unlinkPin (pid.getD thread) key

end Checkout

end Cache

/-- A call by the process `me`; `keyOf` is `cache_key`. -/
def perform (keyOf : String → String → κ) (me : Pid) (s : Cache κ) :
    CacheCall → Except Raised Unit × Cache κ
  | .checkout request work => s.checkout me request (keyOf request.repo request.sha) work
  | .release repo sha pid => (.ok (), s.unpinFor (keyOf repo sha) me pid)

/-- The key a call is about. -/
def CacheCall.key (keyOf : String → String → κ) : CacheCall → κ
  | .checkout request _ => keyOf request.repo request.sha
  | .release repo sha _ => keyOf repo sha

section Outcomes

variable {s : Cache κ} {pid : Pid} {request : Request} {key : κ} {tree : Option Tree}

@[simp] theorem Cache.setTree_setTree (s : Cache κ) (key : κ) (tree tree' : Option Tree) :
    (s.setTree key tree).setTree key tree' = s.setTree key tree' := by
  simp [Cache.setTree]

/-- How a call ends: with a tree that was there or was built, interrupted with whatever tree
there is then, or with the pin taken back. -/
inductive Checked (s : Cache κ) (pid : Pid) (key : κ) : Except Raised Unit × Cache κ → Prop
  | reused (h : s.isBuilt key = true) : Checked s pid key (.ok (), s.pin pid key)
  | built (size : ℕ) (h : s.isBuilt key = false) :
      Checked s pid key (.ok (), (s.pin pid key).setTree key (some ⟨size, some s.now⟩))
  | interrupted (tree : Option Tree) :
      Checked s pid key (.error .interrupt, (s.pin pid key).setTree key tree)
  | raised (error : LauncherError) (h : s.isBuilt key = false) :
      Checked s pid key (.error (.launcher error), (s.pin pid key).giveUp pid key)

theorem isBuilt_pin : (s.pin pid key).isBuilt key = s.isBuilt key := by
  rw [Cache.pin]
  split <;> rfl

theorem now_pin : (s.pin pid key).now = s.now := by
  rw [Cache.pin]
  split <;> rfl

theorem checked_giveUp (error : LauncherError) (h : s.isBuilt key = false) :
    Checked s pid key
      (.error (.launcher error), ((s.pin pid key).setTree key tree).giveUp pid key) := by
  have hgive : ((s.pin pid key).setTree key tree).giveUp pid key =
      (s.pin pid key).giveUp pid key := by
    rw [Cache.giveUp, Cache.giveUp, Cache.setTree_setTree]
  rw [hgive]
  exact .raised error h

theorem checked_handle (stage : FailureStage) (e : Raised) (h : s.isBuilt key = false) :
    Checked s pid key (((s.pin pid key).setTree key tree).handle pid request key stage e) := by
  cases e with
  | interrupt => exact .interrupted tree
  | launcher error => exact checked_giveUp error h
  | runtimeError message => exact checked_giveUp _ h
  | osError errno message => exact checked_giveUp _ h
  | subprocessError message => exact checked_giveUp _ h
  | exception message => exact checked_giveUp _ h

/-- Every way through `checkout_and_build`. -/
theorem checked_checkout (work : Work) :
    Checked s pid key (s.checkout pid request key work) := by
  rw [Cache.checkout]
  dsimp only
  split
  · rename_i hbuilt
    rw [isBuilt_pin] at hbuilt
    exact .reused hbuilt
  · rename_i hbuilt
    rw [isBuilt_pin, Bool.not_eq_true] at hbuilt
    split
    · exact checked_handle .fetch _ hbuilt
    · split
      · rw [Cache.setTree_setTree]
        split
        · exact checked_handle .build _ hbuilt
        · have hnow : ((s.pin pid key).setTree key work.builtTree).now = s.now := now_pin
          rw [Cache.touch, Cache.setTree_setTree, hnow]
          exact .built _ hbuilt
      · exact checked_giveUp _ hbuilt

/-- A call that returns and hands out its tree is an atomic checkout. -/
theorem checkoutAndBuild_of_returned {work : Work}
    (h : (s.checkout pid request key work).1 = .ok ()) :
    ∃ build, (s.checkout pid request key work).2.hand pid key =
      s.checkoutAndBuild pid key build := by
  have hchecked : Checked s pid key (s.checkout pid request key work) := checked_checkout work
  generalize s.checkout pid request key work = outcome at h hchecked ⊢
  cases hchecked with
  | reused hbuilt => exact ⟨.failed, by rw [Cache.checkoutAndBuild, isBuilt_pin, if_pos hbuilt]⟩
  | built size hbuilt =>
      refine ⟨.built size, ?_⟩
      rw [Cache.checkoutAndBuild, isBuilt_pin, hbuilt]
      rfl
  | interrupted tree => cases h
  | raised error hbuilt => cases h

/-- A call that raises an error of the launcher is an atomic checkout that failed. -/
theorem checkoutAndBuild_of_raised {work : Work} {error : LauncherError}
    (h : (s.checkout pid request key work).1 = .error (.launcher error)) :
    (s.checkout pid request key work).2 = s.checkoutAndBuild pid key .failed := by
  have hchecked : Checked s pid key (s.checkout pid request key work) := checked_checkout work
  generalize s.checkout pid request key work = outcome at h hchecked ⊢
  cases hchecked with
  | reused hbuilt => cases h
  | built size hbuilt => cases h
  | interrupted tree => cases h
  | raised error hbuilt =>
      rw [Cache.checkoutAndBuild, isBuilt_pin, hbuilt]
      rfl

end Outcomes

end A2aItk.Launcher
