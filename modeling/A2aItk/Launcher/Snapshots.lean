import A2aItk.Launcher.Eviction
import Mathlib.Algebra.Order.BigOperators.Group.List
import Mathlib.Algebra.Order.Group.Nat

/-!
# What a running `evict` knows

What `evict` has read is split into the trees it removed, the trees it left and the trees
still to come. The total it keeps is at most what the last two have on disk, and the times it
sorted by are the sentinels of the last.

## Implementation notes

Both hold on a condition: nobody shrinks a tree that was read, or touches a sentinel still to
come. Where no tree changes at all (`steady`), the total is exact, and no tree was overlooked.
-/

namespace A2aItk.Launcher

open Python

variable {κ : Type*} [LinearOrder κ]

instance : Std.Total (entryLe : ℕ × κ → ℕ × κ → Prop) where
  total a b := le_total (toLex a) (toLex b)

instance : IsTrans (ℕ × κ) entryLe where
  trans _ _ _ hab hbc := le_trans (α := Lex (ℕ × κ)) hab hbc

/-- Tuples in order are oldest first. -/
theorem fst_le_of_entryLe {a b : ℕ × κ} (h : entryLe a b) : a.1 ≤ b.1 := by
  rcases Prod.Lex.toLex_le_toLex.mp h with hlt | ⟨heq, -⟩
  · exact hlt.le
  · exact heq.le

section Ages

variable {config : Config} {tree tree' : Option Tree}

theorem overAge_mono {now now' : ℕ} (hnow : now ≤ now') (h : overAge config now tree = true) :
    overAge config now' tree = true := by
  unfold overAge at h ⊢
  split at h
  · simp only [decide_eq_true_eq] at h ⊢
    omega
  · rfl

theorem overAge_congr {now : ℕ} (h : tree'.bind Tree.builtAt = tree.bind Tree.builtAt) :
    overAge config now tree' = overAge config now tree := by
  rw [overAge, overAge, h]

theorem sentinelTime_congr (h : tree'.bind Tree.builtAt = tree.bind Tree.builtAt) :
    sentinelTime tree' = sentinelTime tree := by
  rw [sentinelTime, sentinelTime, h]

end Ages

namespace Slots

/-- What the trees of some entries have on disk. -/
def sizes (trees : Dict κ Tree) (entries : List (ℕ × κ)) : ℕ :=
  (entries.map fun entry => treeSize (trees.get? entry.2)).sum

section Sizes

variable {trees trees' : Dict κ Tree} {a b : List (ℕ × κ)}

theorem sizes_append : sizes trees (a ++ b) = sizes trees a + sizes trees b := by
  simp [sizes]

@[simp] theorem sizes_cons (x : ℕ × κ) :
    sizes trees (x :: a) = treeSize (trees.get? x.2) + sizes trees a := by
  simp [sizes]

theorem sizes_congr (h : ∀ x ∈ a, trees'.get? x.2 = trees.get? x.2) :
    sizes trees' a = sizes trees a := by
  rw [sizes, sizes, List.map_congr_left fun x hx => by rw [h x hx]]

theorem sizes_mono (h : ∀ x ∈ a, treeSize (trees.get? x.2) ≤ treeSize (trees'.get? x.2)) :
    sizes trees a ≤ sizes trees' a :=
  List.sum_le_sum h

theorem sizes_le_total (h : (a.map Prod.snd).Nodup) :
    sizes trees a ≤ trees.total Tree.size := by
  have hle : ((a.map Prod.snd).map fun key => treeSize (trees.get? key)).sum ≤
      trees.total Tree.size := Dict.sum_get?_le_total h
  rwa [List.map_map] at hle

theorem total_le_sizes (hnodup : (a.map Prod.snd).Nodup)
    (h : ∀ key ∈ trees.keys, key ∈ a.map Prod.snd) :
    trees.total Tree.size ≤ sizes trees a := by
  have hle : trees.total Tree.size ≤
      ((a.map Prod.snd).map fun key => treeSize (trees.get? key)).sum :=
    Dict.total_le_sum_get? hnodup h
  rwa [List.map_map] at hle

end Sizes

/-- The keys `evict` has read and not visited. -/
def toCome (evict : Eviction κ) : List κ :=
  match evict.stage with
  | .choosing keys => keys
  | .locking key keys | .removing key keys => key :: keys
  | _ => evict.entries.map Prod.snd

/-- No tree that was read and not removed shrinks, and no sentinel still to come changes. -/
structure Undisturbed (trees trees' : Dict κ Tree) (evict : Eviction κ) : Prop where
  grown : ∀ key ∈ evict.entries.map Prod.snd, key ∉ evict.evicted.map Prod.snd →
    treeSize (trees.get? key) ≤ treeSize (trees'.get? key)
  dated : ∀ key ∈ toCome evict,
    (trees'.get? key).bind Tree.builtAt = (trees.get? key).bind Tree.builtAt

theorem Undisturbed.refl (trees : Dict κ Tree) (evict : Eviction κ) :
    Undisturbed trees trees evict :=
  ⟨fun _ _ _ => le_rfl, fun _ _ => rfl⟩

section Invariant

variable (steady : Prop) (config : Config) (trees : Dict κ Tree) (evict : Eviction κ)

/-- What was read: `kept` was left, `rest` is to come, and the sentinels of `unread` are not
read yet. -/
structure Snapshot (unread : List κ) (kept rest : List (ℕ × κ)) : Prop where
  split : (evict.evicted ++ (kept ++ rest)).Perm evict.entries
  distinct : (unread ++ evict.entries.map Prod.snd).Nodup
  current : ∀ x ∈ rest, sentinelTime (trees.get? x.2) = x.1
  complete : steady → ∀ key ∈ trees.keys, key ∈ unread ∨ key ∈ (kept ++ rest).map Prod.snd

/-- How far the visits have come. -/
structure Progress (kept rest : List (ℕ × κ)) : Prop where
  snapshot : Snapshot steady trees evict [] kept rest
  counted : evict.total ≤ sizes trees (kept ++ rest)
  exactly : steady → evict.total = sizes trees (kept ++ rest)
  sorted : (evict.evicted ++ rest).Pairwise (·.1 ≤ ·.1)
  visited : steady → config.diskBudget < evict.total → ∀ x ∈ kept, x.2 ∈ evict.spared

/-- The key has to go. -/
def Due (key : κ) : Prop :=
  config.diskBudget < evict.total ∨ overAge config evict.now (trees.get? key) = true

def StageOk : EvictStage κ → Prop
  | .starting => evict.entries = [] ∧ evict.evicted = []
  | .reading names => evict.evicted = [] ∧ Snapshot steady trees evict names [] evict.entries
  | .summing names => evict.evicted = [] ∧ Snapshot steady trees evict [] [] evict.entries ∧
      evict.entries.Pairwise (·.1 ≤ ·.1) ∧
      ∃ summed left, evict.entries = summed ++ left ∧ left.map Prod.snd = names ∧
        evict.total ≤ sizes trees summed ∧ (steady → evict.total = sizes trees summed)
  | .choosing keys => ∃ kept rest, Progress steady config trees evict kept rest ∧
      rest.map Prod.snd = keys
  | .locking key keys | .removing key keys =>
      ∃ kept time rest, Progress steady config trees evict kept ((time, key) :: rest) ∧
        rest.map Prod.snd = keys ∧ Due config trees evict key

end Invariant

variable {steady : Prop} {config : Config} {trees trees' : Dict κ Tree} {evict : Eviction κ}
  {unread : List κ} {kept rest : List (ℕ × κ)} {x : ℕ × κ}

namespace Snapshot

theorem nodup (h : Snapshot steady trees evict unread kept rest) :
    ((evict.evicted ++ (kept ++ rest)).map Prod.snd).Nodup :=
  (h.split.map Prod.snd).nodup_iff.mpr (List.nodup_append.mp h.distinct).2.1

theorem nodup_left (h : Snapshot steady trees evict unread kept rest) :
    ((kept ++ rest).map Prod.snd).Nodup := by
  have hnodup := h.nodup
  rw [List.map_append] at hnodup
  exact (List.nodup_append.mp hnodup).2.1

/-- The key at the head of what is to come is no other's. -/
theorem ne_head (h : Snapshot steady trees evict unread kept (x :: rest)) :
    ∀ y ∈ kept ++ rest, y.2 ≠ x.2 := by
  intro y hy heq
  have hnodup := (List.perm_middle.map Prod.snd).nodup_iff.mp h.nodup_left
  rw [List.map_cons, List.nodup_cons] at hnodup
  exact hnodup.1 (heq ▸ List.mem_map_of_mem hy)

/-- A tree that is not removed is one of the entries, and none of the evicted. -/
theorem grown (h : Snapshot steady trees evict unread kept rest)
    (hundisturbed : Undisturbed trees trees' evict) :
    ∀ x ∈ kept ++ rest, treeSize (trees.get? x.2) ≤ treeSize (trees'.get? x.2) := by
  intro x hx
  have hentry : x ∈ evict.entries := h.split.mem_iff.mp (List.mem_append_right _ hx)
  refine hundisturbed.grown x.2 (List.mem_map_of_mem hentry) fun hevicted => ?_
  have hnodup := h.nodup
  rw [List.map_append] at hnodup
  exact (List.nodup_append.mp hnodup).2.2 _ hevicted _ (List.mem_map_of_mem hx) rfl

theorem congr (h : Snapshot steady trees evict unread kept rest)
    (hdated : ∀ x ∈ rest,
      (trees'.get? x.2).bind Tree.builtAt = (trees.get? x.2).bind Tree.builtAt)
    (hsteady : steady → trees' = trees) : Snapshot steady trees' evict unread kept rest where
  split := h.split
  distinct := h.distinct
  current x hx := by
    rw [sentinelTime_congr (hdated x hx)]
    exact h.current x hx
  complete hs := by
    rw [hsteady hs]
    exact h.complete hs

end Snapshot

namespace Progress

/-- The head of what is to come is left in place. -/
theorem keep {stage : EvictStage κ} {spared : List κ}
    (h : Progress steady config trees evict kept (x :: rest))
    (hspared : ∀ key ∈ evict.spared, key ∈ spared)
    (hx : steady → config.diskBudget < evict.total → x.2 ∈ spared) :
    Progress steady config trees { evict with stage := stage, spared := spared } (kept ++ [x])
      rest where
  snapshot := by
    obtain ⟨hsplit, hdistinct, hcurrent, hcomplete⟩ := h.snapshot
    rw [List.append_cons] at hsplit hcomplete
    exact ⟨hsplit, hdistinct, fun y hy => hcurrent y (List.mem_cons_of_mem _ hy), hcomplete⟩
  counted := by
    rw [← List.append_cons]
    exact h.counted
  exactly hs := by
    rw [← List.append_cons]
    exact h.exactly hs
  sorted := h.sorted.sublist ((List.sublist_cons_self x rest).append_left _)
  visited hs hover y hy := by
    rcases List.mem_append.mp hy with hy | hy
    · exact hspared _ (h.visited hs hover y hy)
    · rw [List.mem_singleton.mp hy]
      exact hx hs hover

theorem sizes_erase (h : Progress steady config trees evict kept (x :: rest)) :
    sizes trees (kept ++ x :: rest) =
      treeSize (trees.get? x.2) + sizes (trees.erase x.2) (kept ++ rest) := by
  have hne := h.snapshot.ne_head
  rw [sizes_congr fun y hy => Dict.get?_erase_of_ne trees (hne y hy)]
  simp only [sizes_append, sizes_cons]
  omega

/-- The head of what is to come is removed. -/
theorem remove {keys : List κ} (h : Progress steady config trees evict kept (x :: rest)) :
    Progress steady config (trees.erase x.2)
      { evict with
        stage := .choosing keys
        total := evict.total - treeSize (trees.get? x.2)
        evicted := evict.evicted ++ [x] } kept rest where
  snapshot := by
    have hne := h.snapshot.ne_head
    refine ⟨?_, h.snapshot.distinct, fun y hy => ?_, fun hs key hkey => ?_⟩
    · have hperm : (evict.evicted ++ [x] ++ (kept ++ rest)).Perm
          (evict.evicted ++ (kept ++ x :: rest)) := by
        rw [List.append_assoc, List.singleton_append]
        exact (List.perm_middle.symm).append_left _
      exact hperm.trans h.snapshot.split
    · rw [Dict.get?_erase_of_ne _ (hne y (List.mem_append_right _ hy))]
      exact h.snapshot.current y (List.mem_cons_of_mem _ hy)
    · obtain ⟨entry, hentry, rfl⟩ := List.mem_map.mp hkey
      obtain ⟨hin, hkeep⟩ := List.mem_filter.mp hentry
      right
      have hmem := (h.snapshot.complete hs entry.1
        (List.mem_map_of_mem hin)).resolve_left List.not_mem_nil
      rw [(List.perm_middle.map Prod.snd).mem_iff, List.map_cons, List.mem_cons] at hmem
      exact hmem.resolve_left (by simpa using hkeep)
  counted := by
    have hcounted := h.counted
    rw [h.sizes_erase] at hcounted
    dsimp only
    omega
  exactly hs := by
    have hexactly := h.exactly hs
    rw [h.sizes_erase] at hexactly
    dsimp only
    omega
  sorted := by
    rw [← List.append_cons]
    exact h.sorted
  visited hs hover := h.visited hs (by
    dsimp only at hover
    omega)

theorem congr (h : Progress steady config trees evict kept rest)
    (hgrown : ∀ x ∈ kept ++ rest, treeSize (trees.get? x.2) ≤ treeSize (trees'.get? x.2))
    (hdated : ∀ x ∈ rest,
      (trees'.get? x.2).bind Tree.builtAt = (trees.get? x.2).bind Tree.builtAt)
    (hsteady : steady → trees' = trees) : Progress steady config trees' evict kept rest where
  snapshot := h.snapshot.congr hdated hsteady
  counted := by
    have hcounted := h.counted
    have hle := sizes_mono hgrown
    omega
  exactly hs := by
    rw [hsteady hs]
    exact h.exactly hs
  sorted := h.sorted
  visited := h.visited

/-- The account does not depend on where `evict` is. -/
theorem setStage {stage : EvictStage κ} (h : Progress steady config trees evict kept rest) :
    Progress steady config trees { evict with stage := stage } kept rest :=
  ⟨⟨h.snapshot.split, h.snapshot.distinct, h.snapshot.current, h.snapshot.complete⟩, h.counted,
    h.exactly, h.sorted, h.visited⟩

end Progress

/-- What is known of the key at the head stays so. -/
theorem visit_congr {key : κ} {keys : List κ}
    (hundisturbed : Undisturbed trees trees' evict) (hcome : toCome evict = key :: keys)
    (hsteady : steady → trees' = trees)
    (h : ∃ kept time rest, Progress steady config trees evict kept ((time, key) :: rest) ∧
      rest.map Prod.snd = keys ∧ Due config trees evict key) :
    ∃ kept time rest, Progress steady config trees' evict kept ((time, key) :: rest) ∧
      rest.map Prod.snd = keys ∧ Due config trees' evict key := by
  obtain ⟨kept, time, rest, hprogress, hkeys, hdue⟩ := h
  have hdated := hundisturbed.dated
  rw [hcome] at hdated
  refine ⟨kept, time, rest, hprogress.congr (hprogress.snapshot.grown hundisturbed)
    (fun x hx => hdated x.2 ?_) hsteady, hkeys, ?_⟩
  · rw [← hkeys]
    exact List.mem_map_of_mem (f := Prod.snd) hx
  · rwa [Due, overAge_congr (hdated key List.mem_cons_self)]

/-- What is known stays so where the trees are left undisturbed. -/
theorem StageOk.congr (h : StageOk steady config trees evict evict.stage)
    (hundisturbed : Undisturbed trees trees' evict) (hsteady : steady → trees' = trees) :
    StageOk steady config trees' evict evict.stage := by
  have hdated := hundisturbed.dated
  cases hstage : evict.stage with
  | starting =>
      rw [hstage] at h
      exact h
  | reading names =>
      rw [hstage] at h
      rw [toCome, hstage] at hdated
      exact ⟨h.1, h.2.congr (fun x hx => hdated x.2 (List.mem_map_of_mem hx)) hsteady⟩
  | summing names =>
      rw [hstage] at h
      rw [toCome, hstage] at hdated
      obtain ⟨hevicted, hsnapshot, hsorted, summed, left, hentries, hnames, hcounted, hexactly⟩ := h
      refine ⟨hevicted, hsnapshot.congr (fun x hx => hdated x.2 (List.mem_map_of_mem hx)) hsteady,
        hsorted, summed, left, hentries, hnames, ?_, fun hs => ?_⟩
      · have hgrown := hsnapshot.grown hundisturbed
        rw [hentries, List.nil_append] at hgrown
        have hle := sizes_mono fun x hx => hgrown x (List.mem_append_left _ hx)
        omega
      · rw [hsteady hs]
        exact hexactly hs
  | choosing keys =>
      rw [hstage] at h
      rw [toCome, hstage] at hdated
      obtain ⟨kept, rest, hprogress, hkeys⟩ := h
      refine ⟨kept, rest, hprogress.congr (hprogress.snapshot.grown hundisturbed)
        (fun x hx => hdated x.2 ?_) hsteady, hkeys⟩
      rw [← hkeys]
      exact List.mem_map_of_mem hx
  | locking key keys =>
      rw [hstage] at h
      exact visit_congr hundisturbed (by rw [toCome, hstage]) hsteady h
  | removing key keys =>
      rw [hstage] at h
      exact visit_congr hundisturbed (by rw [toCome, hstage]) hsteady h

theorem StageOk.evicted_sorted {stage : EvictStage κ}
    (h : StageOk steady config trees evict stage) : evict.evicted.Pairwise (·.1 ≤ ·.1) := by
  have hfirst : ∀ {kept rest : List (ℕ × κ)}, Progress steady config trees evict kept rest →
      evict.evicted.Pairwise (·.1 ≤ ·.1) := fun hprogress =>
    (List.pairwise_append.mp hprogress.sorted).1
  cases stage with
  | starting => simp [h.2]
  | reading names => simp [h.1]
  | summing names => simp [h.1]
  | choosing keys =>
      obtain ⟨kept, rest, hprogress, -⟩ := h
      exact hfirst hprogress
  | locking key keys =>
      obtain ⟨kept, time, rest, hprogress, -⟩ := h
      exact hfirst hprogress
  | removing key keys =>
      obtain ⟨kept, time, rest, hprogress, -⟩ := h
      exact hfirst hprogress

end Slots

end A2aItk.Launcher
