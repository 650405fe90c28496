import A2aItk.Launcher.Snapshots
import A2aItk.Transition.Runs

/-!
# Eviction removes only what the policy allows

A key is removed without a live pin, over the budget or over its age, and oldest first, in
every run in which, while an `evict` runs, no builder shrinks a tree that it has read and not
removed, or touches a sentinel that it has read and whose key it has still to visit. Where no
tree changes while `evict` runs, it ends within the budget, or every key left was locked or
pinned when visited.
-/

namespace A2aItk.Launcher

open Python Transition

variable {κ : Type*} [LinearOrder κ]

namespace Slots

section Statement

variable (config : Config) (s : Slots κ)

/-- The key may be removed. -/
def Allowed (key : κ) : Prop :=
  (∀ entry ∈ (s.pins key).entries, s.livePin config entry = false) ∧
    (config.diskBudget < s.total ∨ overAge config s.now (s.trees.get? key) = true)

/-- What the policy asks of a state: only what may go is being removed, oldest first. -/
structure PolicyKept : Prop where
  allowed : ∀ evict ∈ s.evictor, ∀ key keys, evict.stage = .removing key keys →
    Allowed config s key
  oldestFirst : ∀ evict ∈ s.evictor, evict.evicted.Pairwise (·.1 ≤ ·.1)

/-- An `evict` that is about to end leaves the budget kept, or only keys it found locked or
pinned. -/
def EndsWithin : Prop :=
  ∀ evict ∈ s.evictor, evict.stage = .choosing [] →
    s.total ≤ config.diskBudget ∨ ∀ key ∈ s.trees.keys, key ∈ evict.spared

/-- No builder shrinks a tree that a running `evict` has read and not removed, or touches a
sentinel that it has read and whose key it has still to visit. -/
def KeepsOff (s : Slots κ) : SlotAction κ → Prop
  | .rebuild key tree => ∀ evict ∈ s.evictor,
      (key ∈ evict.entries.map Prod.snd → key ∉ evict.evicted.map Prod.snd →
        treeSize (s.trees.get? key) ≤ treeSize tree) ∧
      (key ∈ toCome evict → tree.bind Tree.builtAt = (s.trees.get? key).bind Tree.builtAt)
  | _ => True

/-- No builder changes a tree while `evict` runs. -/
def Still (s : Slots κ) : SlotAction κ → Prop
  | .rebuild .. => s.evictor.isNone = true
  | _ => True

instance (s : Slots κ) : (action : SlotAction κ) → Decidable (KeepsOff s action)
  | .rebuild key tree => inferInstanceAs (Decidable (∀ evict ∈ s.evictor,
      (key ∈ evict.entries.map Prod.snd → key ∉ evict.evicted.map Prod.snd →
        treeSize (s.trees.get? key) ≤ treeSize tree) ∧
      (key ∈ toCome evict → tree.bind Tree.builtAt = (s.trees.get? key).bind Tree.builtAt)))
  | .tick _ | .start _ | .die _ | .lock .. | .pin .. | .check _ | .leave _ | .unlink ..
  | .evictStart _ | .evictList | .evictRead _ | .evictSort | .evictSize | .evictConsider
  | .evictLock | .evictRemove | .evictEnd => isTrue trivial

instance (s : Slots κ) : (action : SlotAction κ) → Decidable (Still s action)
  | .rebuild .. => inferInstanceAs (Decidable (s.evictor.isNone = true))
  | .tick _ | .start _ | .die _ | .lock .. | .pin .. | .check _ | .leave _ | .unlink ..
  | .evictStart _ | .evictList | .evictRead _ | .evictSort | .evictSize | .evictConsider
  | .evictLock | .evictRemove | .evictEnd => isTrue trivial

end Statement

/-- What holds while `evict` runs. -/
structure EvictOk (steady : Prop) (config : Config) (s : Slots κ) : Prop where
  clock : ∀ evict ∈ s.evictor, evict.now ≤ s.now
  unpinned : ∀ evict ∈ s.evictor, ∀ key keys, evict.stage = .removing key keys →
    s.pins key = Dict.empty ∧ s.builders.get? key = none
  stage : ∀ evict ∈ s.evictor, StageOk steady config s.trees evict evict.stage

namespace EvictOk

variable {steady : Prop} {config : Config} {s t : Slots κ} {evict : Eviction κ} {key : κ}

/-- Nothing is asked while nobody evicts. -/
theorem of_none (h : s.evictor = none) : EvictOk steady config s := by
  refine ⟨?_, ?_, ?_⟩ <;> simp [h]

/-- A step of the running `evict`. -/
theorem running (hevictor : t.evictor = some evict) (hclock : evict.now ≤ t.now)
    (hunpinned : ∀ key keys, evict.stage = .removing key keys →
      t.pins key = Dict.empty ∧ t.builders.get? key = none)
    (hstage : StageOk steady config t.trees evict evict.stage) : EvictOk steady config t := by
  have heq : ∀ other ∈ t.evictor, other = evict := by
    intro other hother
    rw [hevictor] at hother
    exact (Option.some.inj hother).symm
  refine ⟨fun other hother => ?_, fun other hother => ?_, fun other hother => ?_⟩
  · exact heq other hother ▸ hclock
  · exact heq other hother ▸ hunpinned
  · exact heq other hother ▸ hstage

/-- A step of anybody else: what was read stays, and what is being removed stays unpinned
and locked. -/
theorem frame (h : EvictOk steady config s) (hevictor : ∀ evict ∈ t.evictor, evict ∈ s.evictor)
    (hnow : s.now ≤ t.now)
    (hheld : ∀ key, s.pins key = Dict.empty → s.builders.get? key = none →
      s.removes key = true → t.pins key = Dict.empty ∧ t.builders.get? key = none)
    (htrees : ∀ evict ∈ s.evictor, Undisturbed s.trees t.trees evict ∧
      (steady → t.trees = s.trees)) :
    EvictOk steady config t where
  clock evict hin := (h.clock evict (hevictor evict hin)).trans hnow
  unpinned evict hin key keys hstage := by
    have hins := hevictor evict hin
    obtain ⟨hpins, hbuilder⟩ := h.unpinned evict hins key keys hstage
    refine hheld key hpins hbuilder ?_
    rw [removes, Option.mem_def.mp hins, Option.any_some, hstage]
    simp
  stage evict hin := by
    have hins := hevictor evict hin
    exact (h.stage evict hins).congr (htrees evict hins).1 (htrees evict hins).2

/-- A step that changes no tree, and keeps what is being removed unpinned and locked. -/
theorem quiet (h : EvictOk steady config s) (hevictor : ∀ evict ∈ t.evictor, evict ∈ s.evictor)
    (hnow : s.now ≤ t.now) (htrees : t.trees = s.trees)
    (hheld : ∀ key, s.pins key = Dict.empty → s.builders.get? key = none →
      s.removes key = true → t.pins key = Dict.empty ∧ t.builders.get? key = none) :
    EvictOk steady config t :=
  h.frame hevictor hnow hheld fun evict _ => ⟨htrees ▸ .refl _ evict, fun _ => htrees⟩

section Others

/-- A process that dies takes its evictor along, or leaves it alone. -/
theorem die (h : EvictOk steady config s) (pid : Pid) : EvictOk steady config (s.die pid) := by
  refine h.quiet (fun evict hin => ?_) le_rfl rfl fun key hpins hbuilder _ => ⟨hpins, ?_⟩
  · exact (Option.filter_eq_some_iff.mp hin).1
  · rw [Option.eq_none_iff_forall_ne_some]
    intro builder hget
    rw [(Dict.get?_filter_eq_some_iff.mp hget).1] at hbuilder
    cases hbuilder

/-- A builder may lock a key that is not being removed. -/
theorem lock (h : EvictOk steady config s) (hremoves : s.removes key = false)
    (builder : Builder) : EvictOk steady config (s.setBuilder key builder) := by
  refine h.quiet (fun _ hin => hin) le_rfl rfl fun k hpins hbuilder hk => ⟨hpins, ?_⟩
  have hne : k ≠ key := by
    rintro rfl
    rw [hremoves] at hk
    cases hk
  rw [setBuilder, Dict.get?_set_of_ne _ _ hne]
  exact hbuilder

/-- A step of a builder on its own key: `evict` is removing another one. -/
theorem build (h : EvictOk steady config s) {builder : Builder}
    (hbuilder : s.builders.get? key = some builder)
    (hevictor : t.evictor = s.evictor) (hnow : t.now = s.now)
    (hpins : ∀ k ≠ key, t.pins k = s.pins k)
    (hbuilders : ∀ k ≠ key, t.builders.get? k = s.builders.get? k)
    (htrees : ∀ evict ∈ s.evictor, Undisturbed s.trees t.trees evict ∧
      (steady → t.trees = s.trees)) :
    EvictOk steady config t := by
  refine h.frame (fun evict hin => hevictor ▸ hin) hnow.ge (fun k hk hnone _ => ?_) htrees
  have hne : k ≠ key := by
    rintro rfl
    rw [hbuilder] at hnone
    cases hnone
  rw [hpins k hne, hbuilders k hne]
  exact ⟨hk, hnone⟩

/-- A builder goes on at its key. -/
theorem setBuilder (h : EvictOk steady config s) {builder : Builder}
    (hbuilder : s.builders.get? key = some builder) (builder' : Builder) :
    EvictOk steady config (s.setBuilder key builder') :=
  h.build hbuilder rfl rfl (fun _ _ => rfl) (fun _ hk => Dict.get?_set_of_ne _ _ hk)
    fun evict _ => ⟨.refl _ evict, fun _ => rfl⟩

/-- A builder leaves its key. -/
theorem unlock (h : EvictOk steady config s) {builder : Builder}
    (hbuilder : s.builders.get? key = some builder) : EvictOk steady config (s.unlock key) :=
  h.build hbuilder rfl rfl (fun _ _ => rfl) (fun _ hk => Dict.get?_erase_of_ne _ hk)
    fun evict _ => ⟨.refl _ evict, fun _ => rfl⟩

/-- A pin is set under the lock of its key. -/
theorem pin (h : EvictOk steady config s) {builder : Builder}
    (hbuilder : s.builders.get? key = some builder) (builder' : Builder) (pins : Dict Pid ℕ) :
    EvictOk steady config ((s.setBuilder key builder').setPins key pins) :=
  h.build hbuilder rfl rfl (fun _ hk => Function.update_of_ne hk _ _)
    (fun _ hk => Dict.get?_set_of_ne _ _ hk) fun evict _ => ⟨.refl _ evict, fun _ => rfl⟩

/-- A lookup after a tree has been written. -/
theorem get?_setTree (key k : κ) (tree : Option Tree) :
    (s.setTree key tree).trees.get? k = if k = key then tree else s.trees.get? k := by
  by_cases hk : k = key
  · subst hk
    cases tree with
    | none => simp [setTree]
    | some tree => simp [setTree]
  · rw [if_neg hk]
    cases tree with
    | none => exact Dict.get?_erase_of_ne _ hk
    | some tree => exact Dict.get?_set_of_ne _ _ hk

/-- A builder that keeps off leaves the trees undisturbed. -/
theorem undisturbed_setTree {tree : Option Tree} (hkeeps : KeepsOff s (.rebuild key tree))
    (hin : evict ∈ s.evictor) : Undisturbed s.trees (s.setTree key tree).trees evict where
  grown k hk hleft := by
    rw [get?_setTree]
    split
    · rename_i heq
      subst heq
      exact (hkeeps evict hin).1 hk hleft
    · exact le_rfl
  dated k hk := by
    rw [get?_setTree]
    split
    · rename_i heq
      subst heq
      exact (hkeeps evict hin).2 hk
    · rfl

/-- A tree that is rebuilt is none the evictor has chosen. -/
theorem rebuild (h : EvictOk steady config s) {builder : Builder}
    (hbuilder : s.builders.get? key = some builder) (tree : Option Tree)
    (hkeeps : KeepsOff s (.rebuild key tree)) (hstill : steady → Still s (.rebuild key tree)) :
    EvictOk steady config (s.setTree key tree) := by
  refine h.build hbuilder ?_ ?_ (fun k _ => ?_) (fun k _ => ?_) fun evict hin =>
    ⟨undisturbed_setTree hkeeps hin, fun hs => ?_⟩
  · cases tree <;> rfl
  · cases tree <;> rfl
  · cases tree <;> rfl
  · cases tree <;> rfl
  · have hnone : s.evictor.isNone = true := hstill hs
    rw [Option.mem_def.mp hin] at hnone
    cases hnone

/-- Pins that are removed allow more. -/
theorem unlink (h : EvictOk steady config s) (pid : Pid) :
    EvictOk steady config (s.setPins key ((s.pins key).erase pid)) := by
  refine h.quiet (fun _ hin => hin) le_rfl rfl fun k hpins hbuilder _ => ⟨?_, hbuilder⟩
  by_cases hk : k = key
  · subst hk
    simp only [setPins, Function.update_self, hpins]
    rfl
  · simpa only [setPins, Function.update_of_ne hk] using hpins

end Others

section Evict

variable {names keys : List κ}

/-- The keys are listed once. -/
theorem list (hclock : evict.now ≤ s.now)
    (h : StageOk steady config s.trees evict .starting) :
    EvictOk steady config
      { s with evictor := some { evict with stage := .reading s.trees.keys } } := by
  obtain ⟨hentries, hevicted⟩ := h
  refine running rfl hclock (by simp) ⟨hevicted, ?_, ?_, ?_, ?_⟩
  · simp [hevicted, hentries]
  · dsimp only
    rw [hentries, List.map_nil, List.append_nil]
    exact s.trees.distinct
  · simp [hentries]
  · exact fun _ key hkey => .inl hkey

/-- The times of the trees are read one by one. -/
theorem read (hclock : evict.now ≤ s.now) (hkey : key ∈ names)
    (h : StageOk steady config s.trees evict (.reading names)) :
    EvictOk steady config { s with evictor := some (s.read evict key names) } := by
  obtain ⟨hevicted, hsnapshot⟩ := h
  have hsub : (names.erase key ++ evict.entries.map Prod.snd).Sublist
      (names ++ evict.entries.map Prod.snd) := List.erase_sublist.append_right _
  rw [Slots.read]
  cases htree : s.trees.get? key with
  | none =>
      refine running rfl hclock (by simp) ⟨hevicted, hsnapshot.split, hsub.nodup hsnapshot.distinct,
        hsnapshot.current, fun hs k hk => ?_⟩
      refine (hsnapshot.complete hs k hk).imp_left fun hin => ?_
      have hne : k ≠ key := by
        rintro rfl
        exact Dict.get?_eq_none_iff.mp htree hk
      exact (List.mem_erase_of_ne hne).mpr hin
  | some tree =>
      refine running rfl hclock (by simp) ⟨hevicted, ?_, ?_, ?_, fun hs k hk => ?_⟩
      · simp [hevicted]
      · have hperm : (names.erase key ++ (evict.entries ++ [(sentinelTime (some tree), key)]).map
            Prod.snd).Perm (names ++ evict.entries.map Prod.snd) := by
          rw [List.map_append, ← List.append_assoc]
          refine List.perm_append_comm.trans ?_
          exact ((List.perm_cons_erase hkey).append_right _).symm
        exact hperm.nodup_iff.mpr hsnapshot.distinct
      · intro x hx
        dsimp only at hx
        rw [List.mem_append, List.mem_singleton] at hx
        rcases hx with hx | rfl
        · exact hsnapshot.current x hx
        · rw [htree]
      · rw [List.nil_append, List.map_append, List.mem_append]
        by_cases hne : k = key
        · exact .inr (.inr (by simp [hne]))
        · rcases hsnapshot.complete hs k hk with hin | hin
          · exact .inl ((List.mem_erase_of_ne hne).mpr hin)
          · exact .inr (.inl hin)

/-- The oldest come first. -/
theorem sort (hclock : evict.now ≤ s.now)
    (h : StageOk steady config s.trees evict (.reading [])) :
    EvictOk steady config { s with evictor := some { evict with
      stage := .summing ((evict.entries.insertionSort entryLe).map Prod.snd)
      entries := evict.entries.insertionSort entryLe
      total := 0 } } := by
  obtain ⟨hevicted, hsnapshot⟩ := h
  have hperm : (evict.entries.insertionSort entryLe).Perm evict.entries :=
    List.perm_insertionSort entryLe _
  refine running rfl hclock (by simp) ⟨hevicted, ⟨?_, ?_, ?_, ?_⟩, ?_, [],
    evict.entries.insertionSort entryLe, rfl, rfl, by simp [sizes], by simp [sizes]⟩
  · simp [hevicted]
  · exact (hperm.map Prod.snd).nodup_iff.mpr hsnapshot.distinct
  · exact fun x hx => hsnapshot.current x (hperm.mem_iff.mp hx)
  · intro hs key hkey
    exact (hsnapshot.complete hs key hkey).imp_right fun hin =>
      (hperm.map Prod.snd).mem_iff.mpr hin
  · have hsorted := List.pairwise_insertionSort (entryLe (κ := κ)) evict.entries
    exact hsorted.imp fun hle => fst_le_of_entryLe hle

/-- The sizes are added up one by one. -/
theorem size (hclock : evict.now ≤ s.now)
    (h : StageOk steady config s.trees evict (.summing (key :: names))) :
    EvictOk steady config { s with evictor := some { evict with
      stage := .summing names, total := evict.total + treeSize (s.trees.get? key) } } := by
  obtain ⟨hevicted, hsnapshot, hsorted, summed, all, hentries, hall, hcounted, hexactly⟩ :=
    h
  obtain ⟨x, left, rfl, rfl, hnames⟩ := List.map_eq_cons_iff.mp hall
  have hsizes : sizes s.trees (summed ++ [x]) =
      sizes s.trees summed + treeSize (s.trees.get? x.2) := by
    rw [sizes_append]
    simp [sizes]
  refine running rfl hclock (by simp) ⟨hevicted, ⟨hsnapshot.split, hsnapshot.distinct,
    hsnapshot.current, hsnapshot.complete⟩, hsorted, summed ++ [x], left, ?_, hnames, ?_,
    fun hs => ?_⟩
  · rw [hentries, List.append_assoc, List.singleton_append]
  · rw [hsizes]
    dsimp only
    omega
  · have htotal := hexactly hs
    rw [hsizes]
    dsimp only
    omega

/-- The sum is what is weighed against the budget. -/
theorem choose (hclock : evict.now ≤ s.now)
    (h : StageOk steady config s.trees evict (.summing [])) :
    EvictOk steady config { s with evictor := some { evict with
      stage := .choosing (evict.entries.map Prod.snd) } } := by
  obtain ⟨hevicted, hsnapshot, hsorted, summed, left, hentries, hnames, hcounted, hexactly⟩ := h
  obtain rfl := List.map_eq_nil_iff.mp hnames
  rw [List.append_nil] at hentries
  rw [← hentries] at hcounted hexactly
  refine running rfl hclock (by simp) ⟨[], evict.entries, ⟨⟨hsnapshot.split, hsnapshot.distinct,
    hsnapshot.current, hsnapshot.complete⟩, hcounted, hexactly, ?_, ?_⟩, rfl⟩
  · simpa [hevicted] using hsorted
  · simp

/-- A key is chosen if the sum is over the budget or the tree has lived too long. -/
theorem consider (hclock : evict.now ≤ s.now)
    (h : StageOk steady config s.trees evict (.choosing (key :: keys))) :
    EvictOk steady config { s with evictor := some (s.consider config evict key keys) } := by
  obtain ⟨kept, all, hprogress, hall⟩ := h
  obtain ⟨⟨time, key⟩, rest, rfl, rfl, hkeys⟩ := List.map_eq_cons_iff.mp hall
  rw [Slots.consider]
  split
  · rename_i hneed
    have hdue : Due config s.trees evict key := by simpa [Due] using hneed
    exact running rfl hclock (by simp) ⟨kept, time, rest, hprogress.setStage, hkeys, hdue⟩
  · rename_i hneed
    refine running rfl hclock (by simp) ⟨kept ++ [(time, key)], rest, ?_, hkeys⟩
    refine hprogress.keep (fun _ hin => hin) fun _ hover => ?_
    simp [hover] at hneed

/-- A key that is locked or pinned is passed over. -/
theorem spare (hclock : evict.now ≤ t.now)
    (h : StageOk steady config t.trees evict (.locking key keys))
    (hevictor : t.evictor = some (Slots.spare evict key keys)) : EvictOk steady config t := by
  obtain ⟨kept, time, rest, hprogress, hkeys, -⟩ := h
  refine running hevictor hclock (by simp [Slots.spare]) ⟨kept ++ [(time, key)], rest, ?_, hkeys⟩
  exact hprogress.keep (fun _ hin => List.mem_cons_of_mem _ hin) fun _ _ => List.mem_cons_self

/-- The lock is tried, not waited for. -/
theorem tryLock (hclock : evict.now ≤ s.now)
    (h : StageOk steady config s.trees evict (.locking key keys)) :
    EvictOk steady config (s.tryLock config evict key keys) := by
  rw [Slots.tryLock]
  split
  · exact spare hclock h rfl
  · rename_i hbuilder
    dsimp only
    split
    · exact spare hclock h rfl
    · rename_i hlive
      obtain ⟨kept, time, rest, hprogress, hkeys, hneed⟩ := h
      refine running rfl hclock (fun k ks hstage => ?_)
        ⟨kept, time, rest, hprogress.setStage, hkeys, hneed⟩
      dsimp only at hstage
      obtain ⟨rfl, rfl⟩ := EvictStage.removing.inj hstage
      refine ⟨?_, Option.not_isSome_iff_eq_none.mp hbuilder⟩
      have hempty : (s.pins key).filter (s.livePin config) = Dict.empty :=
        Dict.filter_eq_empty (by simpa using hlive)
      simp only [setPins, Function.update_self, hempty]

/-- A tree that is removed makes the sum less by its size. -/
theorem remove (hclock : evict.now ≤ s.now)
    (h : StageOk steady config s.trees evict (.removing key keys)) :
    EvictOk steady config (s.remove evict key keys) := by
  obtain ⟨kept, time, rest, hprogress, hkeys, -⟩ := h
  have htime : sentinelTime (s.trees.get? key) = time :=
    hprogress.snapshot.current (time, key) (by simp)
  rw [Slots.remove, htime]
  exact running rfl hclock (by simp) ⟨kept, rest, hprogress.remove, hkeys⟩

/-- Whatever `evict` does next. -/
theorem advance {action : SlotAction κ} (hclock : evict.now ≤ s.now)
    (h : StageOk steady config s.trees evict evict.stage)
    (hstep : s.advance config evict action = some t) : EvictOk steady config t := by
  cases action with
  | evictList =>
      rw [Slots.advance] at hstep
      split at hstep
      · rename_i hstage
        obtain rfl := Option.some.inj hstep
        exact list hclock (hstage ▸ h)
      · cases hstep
  | evictRead key =>
      rw [Slots.advance] at hstep
      split at hstep
      · rename_i names hstage
        split at hstep
        · rename_i hkey
          obtain rfl := Option.some.inj hstep
          exact read hclock hkey (hstage ▸ h)
        · cases hstep
      · cases hstep
  | evictSort =>
      rw [Slots.advance] at hstep
      split at hstep
      · rename_i hstage
        obtain rfl := Option.some.inj hstep
        exact sort hclock (hstage ▸ h)
      · cases hstep
  | evictSize =>
      rw [Slots.advance] at hstep
      split at hstep
      · rename_i key names hstage
        obtain rfl := Option.some.inj hstep
        exact size hclock (hstage ▸ h)
      · rename_i hstage
        obtain rfl := Option.some.inj hstep
        exact choose hclock (hstage ▸ h)
      · cases hstep
  | evictConsider =>
      rw [Slots.advance] at hstep
      split at hstep
      · rename_i key keys hstage
        obtain rfl := Option.some.inj hstep
        exact consider hclock (hstage ▸ h)
      · cases hstep
  | evictLock =>
      rw [Slots.advance] at hstep
      split at hstep
      · rename_i key keys hstage
        obtain rfl := Option.some.inj hstep
        exact tryLock hclock (hstage ▸ h)
      · cases hstep
  | evictRemove =>
      rw [Slots.advance] at hstep
      split at hstep
      · rename_i key keys hstage
        obtain rfl := Option.some.inj hstep
        exact remove hclock (hstage ▸ h)
      · cases hstep
  | evictEnd =>
      rw [Slots.advance] at hstep
      split at hstep
      · obtain rfl := Option.some.inj hstep
        exact of_none rfl
      · cases hstep
  | _ => cases hstep

/-- An evictor starts with nothing read. -/
theorem start (pid : Pid) :
    EvictOk steady config { s with evictor := some ⟨pid, s.now, .starting, [], 0, [], []⟩ } :=
  running rfl le_rfl (by simp) ⟨rfl, rfl⟩

end Evict

/-- A step of the system keeps what is known of `evict`. -/
theorem step {action : SlotAction κ} (h : EvictOk steady config s) (hkeeps : KeepsOff s action)
    (hstill : steady → Still s action) (hstep : s.step config action = some t) :
    EvictOk steady config t := by
  have hevict : (s.evictor.bind fun evict => s.advance config evict action) = some t →
      EvictOk steady config t := by
    intro hbind
    obtain ⟨evict, hin, hadvance⟩ := Option.bind_eq_some_iff.mp hbind
    exact advance (h.clock evict hin) (h.stage evict hin) hadvance
  cases action with
  | tick ticks =>
      obtain rfl := Option.some.inj hstep
      exact h.quiet (fun _ hin => hin) (Nat.le_add_right _ _) rfl
        fun _ hpins hbuilder _ => ⟨hpins, hbuilder⟩
  | start pid =>
      rw [Slots.step] at hstep
      split at hstep
      · cases hstep
      · obtain rfl := Option.some.inj hstep
        exact h.quiet (fun _ hin => hin) le_rfl rfl
          fun _ hpins hbuilder _ => ⟨hpins, hbuilder⟩
  | die pid =>
      obtain rfl := Option.some.inj hstep
      exact h.die pid
  | lock pid key =>
      rw [Slots.step] at hstep
      split at hstep
      · rename_i hfree
        simp only [Bool.and_eq_true, Bool.not_eq_true'] at hfree
        obtain rfl := Option.some.inj hstep
        exact h.lock hfree.2 _
      · cases hstep
  | pin key first =>
      rw [Slots.step] at hstep
      split at hstep
      · rename_i pid hbuilder
        obtain rfl := Option.some.inj hstep
        split
        · exact h.pin hbuilder _ _
        · exact h.setBuilder hbuilder _
      · cases hstep
  | check key =>
      rw [Slots.step] at hstep
      split at hstep
      · rename_i pid hbuilder
        split at hstep
        · obtain rfl := Option.some.inj hstep
          exact h.unlock hbuilder
        · obtain rfl := Option.some.inj hstep
          exact h.setBuilder hbuilder _
      · cases hstep
  | rebuild key tree =>
      rw [Slots.step] at hstep
      split at hstep
      · rename_i pid hbuilder
        obtain rfl := Option.some.inj hstep
        exact h.rebuild hbuilder tree hkeeps hstill
      · cases hstep
  | leave key =>
      rw [Slots.step] at hstep
      split at hstep
      · rename_i pid hbuilder
        obtain rfl := Option.some.inj hstep
        exact h.unlock hbuilder
      · cases hstep
  | unlink key pid =>
      obtain rfl := Option.some.inj hstep
      exact h.unlink pid
  | evictStart pid =>
      rw [Slots.step] at hstep
      split at hstep
      · obtain rfl := Option.some.inj hstep
        exact start pid
      · cases hstep
  | evictList | evictSort | evictSize | evictConsider | evictLock | evictRemove | evictEnd =>
      exact hevict hstep
  | evictRead key => exact hevict hstep

/-- What the invariant says of the policy. -/
theorem policyKept (h : EvictOk steady config s) : PolicyKept config s where
  allowed evict hin key keys hstage := by
    obtain ⟨hpins, -⟩ := h.unpinned evict hin key keys hstage
    have hok := h.stage evict hin
    rw [hstage] at hok
    obtain ⟨kept, time, rest, hprogress, -, hdue⟩ := hok
    refine ⟨by simp [hpins, Dict.empty], hdue.imp (fun hover => ?_) fun hold => ?_⟩
    · have hle : sizes s.trees (kept ++ (time, key) :: rest) ≤ s.trees.total Tree.size :=
        sizes_le_total hprogress.snapshot.nodup_left
      have hcounted := hprogress.counted
      rw [Slots.total]
      omega
    · exact overAge_mono (h.clock evict hin) hold
  oldestFirst evict hin := (h.stage evict hin).evicted_sorted

/-- Where nothing moves meanwhile, what is left is within the budget. -/
theorem endsWithin (h : EvictOk True config s) : EndsWithin config s := by
  intro evict hin hstage
  have hok := h.stage evict hin
  rw [hstage] at hok
  obtain ⟨kept, rest, hprogress, hnil⟩ := hok
  obtain rfl := List.map_eq_nil_iff.mp hnil
  have hcomplete : ∀ key ∈ s.trees.keys, key ∈ kept.map Prod.snd := by
    intro key hkey
    simpa using hprogress.snapshot.complete trivial key hkey
  by_cases hover : config.diskBudget < evict.total
  · right
    intro key hkey
    obtain ⟨x, hx, rfl⟩ := List.mem_map.mp (hcomplete key hkey)
    exact hprogress.visited trivial hover x hx
  · left
    have hnodup := hprogress.snapshot.nodup_left
    have hexactly := hprogress.exactly trivial
    rw [List.append_nil] at hnodup hexactly
    have hle := total_le_sizes hnodup hcomplete
    rw [Slots.total]
    omega

end EvictOk

/-- No tree changes while `evict` runs, so none that it has read does. -/
theorem Still.keepsOff {s : Slots κ} {action : SlotAction κ} (h : Still s action) :
    KeepsOff s action := by
  cases action with
  | rebuild key tree =>
      intro evict hin
      have hnone : s.evictor.isNone = true := h
      rw [Option.mem_def.mp hin] at hnone
      cases hnone
  | _ => trivial

/-- Every removal is one the policy allows, oldest first, in every run whose builders keep off
what a running `evict` has read; and where none changes a tree while `evict` runs, it ends
within the budget or with every key left found locked or pinned. -/
theorem evict_keeps_policy (config : Config) {s t : Slots κ} {actions : List (SlotAction κ)}
    (hs : s.evictor = none) (hrun : run (step config) s actions = some t) :
    (Meets (step config) KeepsOff s actions → PolicyKept config t) ∧
      (Meets (step config) Still s actions → EndsWithin config t) := by
  constructor
  · intro hmeets
    have hok : EvictOk False config t :=
      invariant (fun _ _ _ h hkeeps hstep => h.step hkeeps False.elim hstep)
        (EvictOk.of_none hs) hmeets hrun
    exact hok.policyKept
  · intro hmeets
    have hok : EvictOk True config t :=
      invariant (fun _ _ _ h hstill hstep => h.step hstill.keepsOff (fun _ => hstill) hstep)
        (EvictOk.of_none hs) hmeets hrun
    exact hok.endsWithin

section Examples

/-- Two processes, and the trees. -/
def cacheOf (trees : Dict ℕ Tree) : Slots ℕ :=
  ⟨20, fun pid => pid = 1 || pid = 2, fun _ => Dict.empty, trees, Dict.empty, none⟩

/-- A cache with one tree, last used at 15. -/
def builtAt15 : Slots ℕ := cacheOf (Dict.ofList [(7, ⟨5, some 15⟩)])

/-- The first process decides about the key. -/
def decideOn (key : ℕ) : List (SlotAction ℕ) :=
  [.evictStart 1, .evictList, .evictRead key, .evictSort, .evictSize, .evictSize, .evictConsider]

/-- The second process fetches a tree, the first one decides that it has to go, and the second
one finishes it and releases it. -/
def finishedMeanwhile : List (SlotAction ℕ) :=
  [.lock 2 7, .pin 7 true, .check 7, .rebuild 7 (some ⟨5, none⟩)] ++ decideOn 7 ++
    [.rebuild 7 (some ⟨5, some 20⟩), .leave 7, .unlink 7 2, .evictLock]

theorem evict_keeps_policy_once :
    (∃ t, run (step ⟨5, 0, 10⟩) builtAt15 (decideOn 7 ++ [.evictLock]) = some t ∧
        t.removes 7 = true ∧ PolicyKept ⟨5, 0, 10⟩ t) ∧
      ∃ t, run (step ⟨5, 0, 10⟩) builtAt15 (decideOn 7 ++ [.evictLock, .evictRemove]) = some t ∧
        EndsWithin ⟨5, 0, 10⟩ t := by
  have hkeeps : Meets (step ⟨5, 0, 10⟩) KeepsOff builtAt15 (decideOn 7 ++ [.evictLock]) := by
    decide
  have hstill : Meets (step ⟨5, 0, 10⟩) Still builtAt15
      (decideOn 7 ++ [.evictLock, .evictRemove]) := by decide
  exact ⟨⟨_, rfl, rfl, (evict_keeps_policy _ rfl rfl).1 hkeeps⟩,
    ⟨_, rfl, (evict_keeps_policy _ rfl rfl).2 hstill⟩⟩

/-- The tree is removed although it is new and all trees are within the budget. -/
theorem finished_tree_removed :
    ¬ ∀ (config : Config) (s t : Slots ℕ) (actions : List (SlotAction ℕ)), s.evictor = none →
      run (step config) s actions = some t → PolicyKept config t := by
  intro h
  have hkept := h ⟨5, 100, 10⟩ (cacheOf Dict.empty) _ finishedMeanwhile rfl rfl
  have hallowed := hkept.allowed _ rfl 7 [] rfl
  exact absurd hallowed.2 (by decide)

end Examples

end Slots

end A2aItk.Launcher
