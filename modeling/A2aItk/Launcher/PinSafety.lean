import A2aItk.Launcher.Cache

/-!
# Pins protect trees from eviction

A caller that was handed a tree, has not released it and pinned it less than the
deadline ago finds the tree in place, in every run in which no process pins a key
it still has pinned, and no pin file is unlinked while its process has the key
pinned.

## Implementation notes

The invariant says what protects a young holder: the pin file of its process
carries the time of its own pin. A second pin in one process writes no file, and
the second half of a release may unlink the file of a later pin; the two
conditions keep to the runs in which neither happens.
-/

namespace A2aItk.Launcher

open Python Transition

variable {κ : Type*} {config : Config} {s t : Cache κ}

/-- A holder is young until the deadline for its pin. -/
def Holder.Young (config : Config) (now : Nat) (h : Holder κ) : Prop :=
  now < h.pinnedAt + config.runDeadline

instance (config : Config) (now : Nat) (h : Holder κ) : Decidable (h.Young config now) :=
  inferInstanceAs (Decidable (now < h.pinnedAt + config.runDeadline))

/-- Every young holder has its tree. -/
def TreesKept (config : Config) (s : Cache κ) : Prop :=
  ∀ h ∈ s.holders, h.Young config s.now → s.isBuilt h.key = true

/-- No process pins a key again or releases one it was not handed while it has
the key pinned, and no pin file goes while its process has the key pinned. -/
def Disciplined (s : Cache κ) : Action κ → Prop
  | .checkout pid key _ => s.pinRefs pid key = 0
  | .releaseExtra thread pid key => thread = pid → s.pinRefs pid key = 0
  | .unlink pending => s.pinRefs pending.pid pending.key = 0
  | _ => True

instance (s : Cache κ) : (action : Action κ) → Decidable (Disciplined s action)
  | .checkout pid key _ => inferInstanceAs (Decidable (s.pinRefs pid key = 0))
  | .releaseExtra thread pid key =>
      inferInstanceAs (Decidable (thread = pid → s.pinRefs pid key = 0))
  | .unlink pending => inferInstanceAs (Decidable (s.pinRefs pending.pid pending.key = 0))
  | .tick _ | .start _ | .die _ | .release _ | .evictStart .. | .evictConsider
  | .evictVisit _ | .evictEnd => isTrue trivial

/-- What protects the holders. -/
structure PinsHeld (config : Config) (s : Cache κ) : Prop where
  alive : ∀ h ∈ s.holders, s.alive h.pid = true
  counted : ∀ h ∈ s.holders, s.pinRefs h.pid h.key ≠ 0
  single : (s.holders.map fun h => (h.pid, h.key)).Nodup
  recorded : ∀ h ∈ s.holders, h.Young config s.now →
    (s.pins h.key).get? h.pid = some h.pinnedAt
  kept : TreesKept config s

section Parts

variable [DecidableEq κ] (s : Cache κ) {pid q : Pid} {key k : κ}

theorem Cache.pinRefs_setRefs_of_ne (n : Nat) (h : (q, k) ≠ (pid, key)) :
    (s.setRefs pid key n).pinRefs q k = s.pinRefs q k := by
  rw [Cache.setRefs]
  by_cases hq : q = pid
  · subst hq
    have hk : k ≠ key := fun hk => h (by rw [hk])
    simp [hk]
  · simp [hq]

@[simp] theorem Cache.pinRefs_setRefs_self (n : Nat) :
    (s.setRefs pid key n).pinRefs pid key = n := by
  simp [Cache.setRefs]

theorem Cache.get?_writePin_of_ne (h : (q, k) ≠ (pid, key)) :
    ((s.writePin pid key).pins k).get? q = (s.pins k).get? q := by
  rw [Cache.writePin]
  by_cases hk : k = key
  · subst hk
    have hq : q ≠ pid := fun hq => h (by rw [hq])
    simp [Dict.get?_set_of_ne _ _ hq]
  · simp [hk]

@[simp] theorem Cache.get?_writePin_self :
    ((s.writePin pid key).pins key).get? pid = some s.now := by
  simp [Cache.writePin]

theorem Cache.get?_unlinkPin_of_ne (h : (q, k) ≠ (pid, key)) :
    ((s.unlinkPin pid key).pins k).get? q = (s.pins k).get? q := by
  rw [Cache.unlinkPin]
  by_cases hk : k = key
  · subst hk
    have hq : q ≠ pid := fun hq => h (by rw [hq])
    simp [Dict.get?_erase_of_ne _ hq]
  · simp [hk]

theorem Cache.isBuilt_setTree_of_ne {tree : Option Tree} (h : k ≠ key) :
    (s.setTree key tree).isBuilt k = s.isBuilt k := by
  simp [Cache.isBuilt, Cache.setTree, h]

/-- The first pin of a process counts one and writes the file. -/
theorem Cache.pin_of_unpinned (h : s.pinRefs pid key = 0) :
    s.pin pid key = (s.setRefs pid key 1).writePin pid key := by
  simp [Cache.pin, h]

theorem Cache.release_of_unpinned (h : s.pinRefs pid key = 0) : s.release pid pid key = s := by
  simp [Cache.release, Cache.unpinCount, h]

theorem Cache.unpin_of_single (h : s.pinRefs pid key = 1) :
    s.unpin pid key = (s.setRefs pid key 0).unlinkPin pid key := by
  simp [Cache.unpin, Cache.unpinCount, h]

end Parts

namespace PinsHeld

section Frame

variable {pid : Pid} {key : κ}

theorem of_no_holders (h : s.holders = []) : PinsHeld config s := by
  refine ⟨?_, ?_, ?_, ?_, ?_⟩ <;> simp [h, TreesKept]

theorem tick (h : PinsHeld config s) (ticks : Nat) :
    PinsHeld config { s with now := s.now + ticks } := by
  have hyoung : ∀ holder : Holder κ, holder.Young config (s.now + ticks) →
      holder.Young config s.now := by
    intro holder hy
    unfold Holder.Young at hy ⊢
    omega
  exact ⟨h.alive, h.counted, h.single, fun holder hin hy => h.recorded holder hin (hyoung _ hy),
    fun holder hin hy => h.kept holder hin (hyoung _ hy)⟩

theorem start (h : PinsHeld config s) (pid : Pid) :
    PinsHeld config { s with alive := Function.update s.alive pid true } := by
  refine ⟨fun holder hin => ?_, h.counted, h.single, h.recorded, h.kept⟩
  by_cases hpid : holder.pid = pid
  · simp [hpid]
  · simpa [hpid] using h.alive holder hin

theorem die (h : PinsHeld config s) (pid : Pid) : PinsHeld config (s.die pid) := by
  have hmem : ∀ holder ∈ (s.die pid).holders, holder ∈ s.holders ∧ holder.pid ≠ pid := by
    intro holder hin
    simpa [Cache.die] using hin
  refine ⟨fun holder hin => ?_, fun holder hin => ?_, ?_, fun holder hin hy => ?_,
    fun holder hin hy => ?_⟩
  · obtain ⟨hin, hne⟩ := hmem holder hin
    simpa [Cache.die, hne] using h.alive holder hin
  · obtain ⟨hin, hne⟩ := hmem holder hin
    simpa [Cache.die, hne] using h.counted holder hin
  · exact (List.filter_sublist.map _).nodup h.single
  · exact h.recorded holder (hmem holder hin).1 hy
  · exact h.kept holder (hmem holder hin).1 hy

/-- A holder of the key is not of a process that has it unpinned. -/
theorem ne_of_unpinned (h : PinsHeld config s) (hrefs : s.pinRefs pid key = 0)
    {holder : Holder κ} (hin : holder ∈ s.holders) : (holder.pid, holder.key) ≠ (pid, key) := by
  intro heq
  obtain ⟨hpid, hkey⟩ := Prod.mk.inj heq
  exact h.counted holder hin (hpid ▸ hkey ▸ hrefs)

/-- A tree that is not complete has no young holder. -/
theorem ne_of_not_built (h : PinsHeld config s) (hbuilt : s.isBuilt key = false)
    {holder : Holder κ} (hin : holder ∈ s.holders) (hy : holder.Young config s.now) :
    holder.key ≠ key := by
  rintro rfl
  exact absurd (h.kept holder hin hy) (by simp [hbuilt])

/-- The caller that took the only pin of its process is handed the tree. -/
theorem hand (h : PinsHeld config s) (halive : s.alive pid = true)
    (hnew : ∀ holder ∈ s.holders, (holder.pid, holder.key) ≠ (pid, key))
    (hrefs : s.pinRefs pid key ≠ 0) (hfile : (s.pins key).get? pid = some s.now)
    (hbuilt : s.isBuilt key = true) : PinsHeld config (s.hand pid key) := by
  refine ⟨?_, ?_, ?_, ?_, ?_⟩
  · exact List.forall_mem_cons.mpr ⟨halive, h.alive⟩
  · exact List.forall_mem_cons.mpr ⟨hrefs, h.counted⟩
  · refine List.nodup_cons.mpr ⟨fun hin => ?_, h.single⟩
    obtain ⟨holder, hholder, heq⟩ := List.mem_map.mp hin
    exact hnew holder hholder heq
  · exact List.forall_mem_cons.mpr ⟨fun _ => hfile, h.recorded⟩
  · exact List.forall_mem_cons.mpr ⟨fun _ => hbuilt, h.kept⟩

/-- The pin file of a young holder is live. -/
theorem live_of_young (h : PinsHeld config s) {holder : Holder κ} (hin : holder ∈ s.holders)
    (hy : holder.Young config s.now) :
    s.livePin config (holder.pid, holder.pinnedAt) = true := by
  have halive := h.alive holder hin
  unfold Holder.Young at hy
  simp [Cache.livePin, halive, hy]

theorem withEvictor (h : PinsHeld config s) (evictor : Option (Evictor κ)) :
    PinsHeld config { s with evictor := evictor } :=
  ⟨h.alive, h.counted, h.single, h.recorded, h.kept⟩

end Frame

variable [DecidableEq κ]

section Steps

variable {pid : Pid} {key : κ}

/-- The first pin of a process disturbs no holder. -/
theorem pin (h : PinsHeld config s) (hrefs : s.pinRefs pid key = 0) :
    PinsHeld config (s.pin pid key) := by
  rw [Cache.pin_of_unpinned s hrefs]
  refine ⟨h.alive, fun holder hin => ?_, h.single, fun holder hin hy => ?_, h.kept⟩
  · have hne := h.ne_of_unpinned hrefs hin
    exact (Cache.pinRefs_setRefs_of_ne s 1 hne).symm ▸ h.counted holder hin
  · have hne := h.ne_of_unpinned hrefs hin
    rw [Cache.get?_writePin_of_ne _ hne]
    exact h.recorded holder hin hy

/-- Replacing a tree that was not complete disturbs no young holder. -/
theorem setTree (h : PinsHeld config s) (hbuilt : s.isBuilt key = false) (tree : Option Tree) :
    PinsHeld config (s.setTree key tree) := by
  refine ⟨h.alive, h.counted, h.single, h.recorded, fun holder hin hy => ?_⟩
  rw [Cache.isBuilt_setTree_of_ne s (h.ne_of_not_built hbuilt hin hy)]
  exact h.kept holder hin hy

theorem setRefs (h : PinsHeld config s)
    (hother : ∀ holder ∈ s.holders, (holder.pid, holder.key) ≠ (pid, key)) (n : Nat) :
    PinsHeld config (s.setRefs pid key n) := by
  refine ⟨h.alive, fun holder hin => ?_, h.single, h.recorded, h.kept⟩
  exact (Cache.pinRefs_setRefs_of_ne s n (hother holder hin)).symm ▸ h.counted holder hin

theorem unlinkPin (h : PinsHeld config s)
    (hother : ∀ holder ∈ s.holders, (holder.pid, holder.key) ≠ (pid, key)) :
    PinsHeld config (s.unlinkPin pid key) := by
  refine ⟨h.alive, h.counted, h.single, fun holder hin hy => ?_, h.kept⟩
  rw [Cache.get?_unlinkPin_of_ne s (hother holder hin)]
  exact h.recorded holder hin hy

theorem checkout (h : PinsHeld config s) (halive : s.alive pid = true)
    (hrefs : s.pinRefs pid key = 0) (build : Cache.Build) :
    PinsHeld config (s.checkoutAndBuild pid key build) := by
  have hother : ∀ holder ∈ s.holders, (holder.pid, holder.key) ≠ (pid, key) :=
    fun _ hin => h.ne_of_unpinned hrefs hin
  have hpinned := h.pin hrefs
  unfold Cache.checkoutAndBuild
  rw [Cache.pin_of_unpinned s hrefs] at hpinned ⊢
  have hcount : ((s.setRefs pid key 1).writePin pid key).pinRefs pid key = 1 :=
    Cache.pinRefs_setRefs_self s 1
  have hfile : (((s.setRefs pid key 1).writePin pid key).pins key).get? pid = some s.now :=
    Cache.get?_writePin_self _
  dsimp only
  split
  · rename_i hbuilt
    exact hpinned.hand halive hother (by rw [hcount]; decide) hfile hbuilt
  · rename_i hbuilt
    simp only [Bool.not_eq_true] at hbuilt
    cases build with
    | built size =>
        have hset := hpinned.setTree hbuilt (some ⟨size, some s.now⟩)
        refine hset.hand halive hother (hcount.trans_ne Nat.one_ne_zero) hfile ?_
        simp [Cache.isBuilt, Cache.setTree]
    | failed =>
        have hset := hpinned.setTree hbuilt none
        have hone : (((s.setRefs pid key 1).writePin pid key).setTree key none).pinRefs pid key =
            1 := hcount
        simp only [Cache.unpin_of_single _ hone]
        exact (hset.setRefs hother 0).unlinkPin hother

theorem release (h : PinsHeld config s) {holder : Holder κ} (hin : holder ∈ s.holders) :
    PinsHeld config (({ s with holders := s.holders.erase holder } : Cache κ).release holder.pid
      holder.pid holder.key) := by
  have hleft : PinsHeld config { s with holders := s.holders.erase holder } :=
    ⟨fun g hg => h.alive g (List.mem_of_mem_erase hg),
      fun g hg => h.counted g (List.mem_of_mem_erase hg),
      (List.erase_sublist.map _).nodup h.single,
      fun g hg => h.recorded g (List.mem_of_mem_erase hg),
      fun g hg => h.kept g (List.mem_of_mem_erase hg)⟩
  have hother : ∀ g ∈ s.holders.erase holder, (g.pid, g.key) ≠ (holder.pid, holder.key) := by
    intro g hg heq
    have hnodup : s.holders.Nodup := List.Nodup.of_map _ h.single
    have hsame := List.inj_on_of_nodup_map h.single (List.mem_of_mem_erase hg) hin heq
    exact (hnodup.mem_erase_iff.mp hg).1 hsame
  simp only [Cache.release, Cache.unpinCount, if_true]
  rw [if_neg (h.counted holder hin)]
  have hset := hleft.setRefs hother (s.pinRefs holder.pid holder.key - 1)
  dsimp only
  split
  · exact ⟨hset.alive, hset.counted, hset.single, hset.recorded, hset.kept⟩
  · exact hset

theorem releaseExtra (h : PinsHeld config s) {thread : Pid}
    (hrefs : thread = pid → s.pinRefs pid key = 0) :
    PinsHeld config (s.release thread pid key) := by
  by_cases hown : thread = pid
  · subst hown
    rw [Cache.release_of_unpinned s (hrefs rfl)]
    exact h
  · rw [Cache.release, if_neg (Ne.symm hown)]
    exact ⟨h.alive, h.counted, h.single, h.recorded, h.kept⟩

/-- Looking for a live pin reclaims no file of a young holder. -/
theorem hasLivePin (h : PinsHeld config s) (key : κ) :
    PinsHeld config (s.hasLivePin key config).1 := by
  refine ⟨h.alive, h.counted, h.single, fun holder hin hy => ?_, h.kept⟩
  have hfile := h.recorded holder hin hy
  by_cases hkey : holder.key = key
  · subst hkey
    simp only [Cache.hasLivePin, Function.update_self]
    exact Dict.get?_filter_eq_some_iff.mpr ⟨hfile, h.live_of_young hin hy⟩
  · simpa [Cache.hasLivePin, hkey] using hfile

/-- A key without a live pin has no young holder. -/
theorem ne_of_no_live_pin (h : PinsHeld config s) (hdead : (s.hasLivePin key config).2 = false)
    {holder : Holder κ} (hin : holder ∈ s.holders) (hy : holder.Young config s.now) :
    holder.key ≠ key := by
  rintro rfl
  have hentry := Dict.get?_eq_some_iff.mp (h.recorded holder hin hy)
  have hlive := h.live_of_young hin hy
  have hany : (s.pins holder.key).entries.any (s.livePin config) = true :=
    List.any_eq_true.mpr ⟨_, hentry, hlive⟩
  exact absurd hdead (by simp [Cache.hasLivePin, hany])

theorem visit (h : PinsHeld config s) (evictor : Evictor κ) (key : κ) :
    PinsHeld config (s.visit config evictor key) := by
  have hreclaimed := h.hasLivePin key
  rw [Cache.visit]
  dsimp only
  split
  · exact hreclaimed.withEvictor _
  · rename_i hdead
    simp only [Bool.not_eq_true] at hdead
    have hother : ∀ holder ∈ s.holders, holder.Young config s.now → holder.key ≠ key :=
      fun _ hin hy => h.ne_of_no_live_pin hdead hin hy
    refine ⟨h.alive, h.counted, h.single, fun holder hin hy => ?_, fun holder hin hy => ?_⟩
    · have hne := hother holder hin hy
      have hfile := hreclaimed.recorded holder hin hy
      simpa [Cache.clearPins, Cache.setTree, hne] using hfile
    · have hne := hother holder hin hy
      have hbuilt := h.kept holder hin hy
      simpa [Cache.isBuilt, Cache.clearPins, Cache.setTree, Cache.hasLivePin, hne] using hbuilt

end Steps

/-- Every disciplined step keeps the holders protected. -/
theorem step (h : PinsHeld config s) {action : Action κ} (hguard : Disciplined s action)
    (hstep : s.step config action = some t) : PinsHeld config t := by
  cases action with
  | tick ticks =>
      obtain rfl := Option.some.inj hstep
      exact h.tick ticks
  | start pid =>
      simp only [Cache.step, Option.ite_none_left_eq_some, Option.some.injEq] at hstep
      obtain ⟨-, rfl⟩ := hstep
      exact h.start pid
  | die pid =>
      simp only [Cache.step, Option.ite_none_right_eq_some, Option.some.injEq] at hstep
      obtain ⟨-, rfl⟩ := hstep
      exact h.die pid
  | checkout pid key build =>
      simp only [Cache.step, Option.ite_none_right_eq_some, Option.some.injEq] at hstep
      obtain ⟨halive, rfl⟩ := hstep
      exact h.checkout halive hguard build
  | release holder =>
      simp only [Cache.step, Option.ite_none_right_eq_some, Option.some.injEq] at hstep
      obtain ⟨hin, rfl⟩ := hstep
      exact h.release hin
  | releaseExtra thread pid key =>
      simp only [Cache.step, Option.ite_none_right_eq_some, Option.some.injEq] at hstep
      obtain ⟨-, rfl⟩ := hstep
      exact h.releaseExtra hguard
  | unlink pending =>
      simp only [Cache.step, Option.ite_none_right_eq_some, Option.some.injEq] at hstep
      obtain ⟨-, rfl⟩ := hstep
      have hleft : PinsHeld config { s with unlinking := s.unlinking.erase pending } :=
        ⟨h.alive, h.counted, h.single, h.recorded, h.kept⟩
      exact hleft.unlinkPin fun holder hin => h.ne_of_unpinned hguard hin
  | evictStart pid keys total =>
      simp only [Cache.step] at hstep
      split at hstep
      · cases hstep
      · simp only [Option.ite_none_right_eq_some, Option.some.injEq] at hstep
        obtain ⟨-, rfl⟩ := hstep
        exact h.withEvictor _
  | evictConsider =>
      simp only [Cache.step] at hstep
      split at hstep
      · split at hstep
        · obtain rfl := Option.some.inj hstep
          exact h.withEvictor _
        · cases hstep
      · cases hstep
  | evictVisit got =>
      simp only [Cache.step] at hstep
      split at hstep
      · split at hstep
        · split at hstep
          · obtain rfl := Option.some.inj hstep
            exact h.visit _ _
          · obtain rfl := Option.some.inj hstep
            exact h.withEvictor _
        · cases hstep
      · cases hstep
  | evictEnd =>
      simp only [Cache.step] at hstep
      split at hstep
      · simp only [Option.ite_none_right_eq_some, Option.some.injEq] at hstep
        obtain ⟨-, rfl⟩ := hstep
        exact h.withEvictor _
      · cases hstep

end PinsHeld

/-- Where no caller held a tree at the start, every young holder has its tree in
every state that a disciplined run reaches. -/
theorem young_trees_kept [DecidableEq κ] {actions : List (Action κ)} (hs : s.holders = [])
    (hmeets : Meets (Cache.step config) Disciplined s actions)
    (hrun : run (Cache.step config) s actions = some t) : TreesKept config t := by
  have hheld : PinsHeld config t :=
    invariant (fun _ _ _ hinv hguard hstep => PinsHeld.step hinv hguard hstep)
      (PinsHeld.of_no_holders hs) hmeets hrun
  exact hheld.kept

section Examples

def smallCache : Config where
  runDeadline := 10
  diskBudget := 0
  treeTtl := 100

/-- No process, and nothing on disk. -/
def emptyCache : Cache String where
  now := 0
  alive := fun _ => false
  pinRefs := fun _ _ => 0
  pins := fun _ => Dict.empty
  trees := fun _ => none
  unlinking := []
  holders := []
  evictor := none

def visitOver (key : String) : List (Action String) :=
  [.evictStart 1 [key] 1, .evictConsider, .evictVisit true]

/-- Pin a key, wait, and visit it. -/
def pinAndVisit : List (Action String) :=
  [.start 1, .checkout 1 "k" (.built 1), .tick 9] ++ visitOver "k"

theorem young_trees_kept_once :
    ∃ t, run (Cache.step smallCache) emptyCache pinAndVisit = some t ∧
      TreesKept smallCache t := by
  have hmeets : Meets (Cache.step smallCache) Disciplined emptyCache pinAndVisit := by decide
  exact ⟨_, rfl, young_trees_kept (s := emptyCache) rfl hmeets rfl⟩

/-- A second pin in one process does not renew the file, and the second half of a
release unlinks the file of a pin taken after the first half. -/
theorem young_tree_evicted :
    (∃ t, run (Cache.step smallCache) emptyCache
        ([.start 1, .checkout 1 "k" (.built 1), .tick 9, .checkout 1 "k" (.built 1), .tick 2] ++
          visitOver "k") = some t ∧
      ¬ TreesKept smallCache t) ∧
    ∃ t, run (Cache.step smallCache) emptyCache
        ([.start 1, .checkout 1 "k" (.built 1), .release ⟨1, "k", 0⟩,
          .checkout 1 "k" (.built 1), .unlink ⟨1, 1, "k"⟩] ++ visitOver "k") = some t ∧
      ¬ TreesKept smallCache t := by
  constructor
  · refine ⟨_, rfl, fun h => ?_⟩
    exact absurd (h ⟨1, "k", 9⟩ (by decide) (by decide)) (by decide)
  · refine ⟨_, rfl, fun h => ?_⟩
    exact absurd (h ⟨1, "k", 0⟩ (by decide) (by decide)) (by decide)

end Examples

end A2aItk.Launcher
