import A2aItk.Python.Dict

/-!
# Grouping

A loop that adds each element to the value under its key.
-/

namespace A2aItk.Python.Dict

variable {α β γ δ : Type*} [DecidableEq α]

/-- `for x in elements: d[key(x)] = add(d.get(key(x)), x)`. -/
def gather (key : γ → α) (add : Option β → γ → β) (elements : List γ) : Dict α β :=
  elements.foldl (fun d x => d.set (key x) (add (d.get? (key x)) x)) empty

variable {key : γ → α} {add : Option β → γ → β} {elements : List γ} {k : α}

/-- The value under a key is what the elements with that key add up to. -/
theorem get?_gather :
    (gather key add elements).get? k =
      (elements.filter fun x => key x = k).foldl (fun v x => some (add v x)) none := by
  suffices hgo : ∀ d : Dict α β,
      (elements.foldl (fun d x => d.set (key x) (add (d.get? (key x)) x)) d).get? k =
        (elements.filter fun x => key x = k).foldl (fun v x => some (add v x)) (d.get? k) from
    hgo empty
  induction elements with
  | nil => exact fun _ => rfl
  | cons x rest ih =>
      intro d
      rw [List.foldl_cons, ih]
      by_cases hk : key x = k
      · subst hk
        rw [get?_set_self, List.filter_cons_of_pos (by simp), List.foldl_cons]
      · rw [get?_set_of_ne d _ (Ne.symm hk), List.filter_cons_of_neg (by simpa using hk)]

theorem foldl_some_ne_none {v : Option β} {step : Option β → γ → β} {l : List γ} (h : l ≠ []) :
    l.foldl (fun v x => some (step v x)) v ≠ none := by
  obtain ⟨front, last, rfl⟩ := (List.eq_nil_or_concat' l).resolve_left h
  rw [List.foldl_append, List.foldl_cons, List.foldl_nil]
  exact Option.some_ne_none _

theorem mem_keys_gather : k ∈ (gather key add elements).keys ↔ ∃ x ∈ elements, key x = k := by
  rw [← not_iff_not, ← get?_eq_none_iff, get?_gather]
  constructor
  · rintro hnone ⟨x, hx, hk⟩
    have hin : x ∈ elements.filter fun x => key x = k := List.mem_filter.mpr ⟨hx, by simpa using hk⟩
    exact foldl_some_ne_none (List.ne_nil_of_mem hin) hnone
  · intro hout
    have hnil : elements.filter (fun x => key x = k) = [] := by
      rw [List.filter_eq_nil_iff]
      intro x hx hk
      exact hout ⟨x, hx, by simpa using hk⟩
    rw [hnil, List.foldl_nil]

/-- Sorted by their keys, the elements are still the same ones. -/
theorem flatMap_filter_perm {keys : List α} (hkeys : keys.Nodup)
    (hmem : ∀ x ∈ elements, key x ∈ keys) :
    (keys.flatMap fun k => elements.filter fun x => key x = k).Perm elements := by
  induction keys generalizing elements with
  | nil =>
      have hnil : elements = [] := List.eq_nil_iff_forall_not_mem.mpr fun x hx => by
        simpa using hmem x hx
      rw [hnil, List.flatMap_nil]
  | cons k rest ih =>
      rw [List.nodup_cons] at hkeys
      have hrest : (rest.flatMap fun k' => elements.filter fun x => key x = k') =
          rest.flatMap fun k' =>
            (elements.filter fun x => !decide (key x = k)).filter fun x => key x = k' := by
        refine List.flatMap_congr fun k' hk' => ?_
        rw [List.filter_filter]
        refine List.filter_congr fun x _ => ?_
        have hne : k' ≠ k := by
          rintro rfl
          exact hkeys.1 hk'
        by_cases hx : key x = k'
        · simp [hx, hne]
        · simp [hx]
      rw [List.flatMap_cons, hrest]
      refine ((ih hkeys.2 ?_).append_left _).trans (List.filter_append_perm _ _)
      intro x hx
      obtain ⟨hin, hk⟩ := List.mem_filter.mp hx
      exact List.mem_of_ne_of_mem (by simpa using hk) (hmem x hin)

/-- Where each value keeps what was added to it, the values together keep everything. -/
theorem perm_flatMap_gather {f : α × β → List δ} {g : γ → δ}
    (hkept : ∀ k v, (gather key add elements).get? k = some v →
      f (k, v) = (elements.filter fun x => key x = k).map g) :
    ((gather key add elements).entries.flatMap f).Perm (elements.map g) := by
  have hkeys : (gather key add elements).entries.flatMap f =
      (gather key add elements).keys.flatMap fun k =>
        (elements.filter fun x => key x = k).map g := by
    rw [keys, List.flatMap_map]
    exact List.flatMap_congr fun entry hentry =>
      hkept entry.1 entry.2 (get?_eq_some_iff.mpr hentry)
  rw [hkeys, ← List.map_flatMap]
  refine (flatMap_filter_perm (gather key add elements).distinct ?_).map g
  exact fun x hx => mem_keys_gather.mpr ⟨x, hx, rfl⟩

/-- `d.setdefault(key(x), []).append(g(x))`. -/
def gatherLists (key : γ → α) (g : γ → δ) (elements : List γ) : Dict α (List δ) :=
  gather key (fun collected x => collected.getD [] ++ [g x]) elements

section Lists

variable {g : γ → δ} {collected : List δ}

theorem get?_gatherLists (h : (gatherLists key g elements).get? k = some collected) :
    collected = (elements.filter fun x => key x = k).map g := by
  rw [gatherLists, get?_gather] at h
  suffices hgo : ∀ (l : List γ) (v : Option (List δ)) (w : List δ),
      l.foldl (fun v x => some (v.getD [] ++ [g x])) v = some w → w = v.getD [] ++ l.map g by
    simpa using hgo _ _ _ h
  intro l
  induction l with
  | nil =>
      intro v w hw
      rw [List.foldl_nil] at hw
      simp [hw]
  | cons x rest ih =>
      intro v w hw
      rw [List.foldl_cons] at hw
      rw [ih _ _ hw]
      simp

end Lists

end A2aItk.Python.Dict
