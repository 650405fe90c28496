import Mathlib.Data.List.Nodup
import Mathlib.Algebra.BigOperators.Group.List.Basic
import Mathlib.Algebra.GroupWithZero.Nat

/-!
# Insertion-ordered dictionaries

Entries in the order their keys were first set. Setting a key that is present
replaces the value and keeps the place.
-/

namespace A2aItk.Python

/-- A dictionary: entries with distinct keys, oldest first. -/
structure Dict (α β : Type*) where
  entries : List (α × β)
  distinct : (entries.map Prod.fst).Nodup

namespace Dict

variable {α β : Type*}

/-- The keys, in the order in which they came. -/
def keys (d : Dict α β) : List α := d.entries.map Prod.fst

/-- The values, in the order of their keys. -/
def values (d : Dict α β) : List β := d.entries.map Prod.snd

/-- No keys. -/
def empty : Dict α β := ⟨[], List.nodup_nil⟩

variable [DecidableEq α]

/-- The value of a key, if it has one. -/
def get? (d : Dict α β) (k : α) : Option β := d.entries.lookup k

/-- Replace the value of a key that is present, or add the entry at the end. -/
def setEntry (k : α) (v : β) : List (α × β) → List (α × β)
  | [] => [(k, v)]
  | (k', v') :: rest => if k' = k then (k, v) :: rest else (k', v') :: setEntry k v rest

theorem keys_setEntry (k : α) (v : β) (l : List (α × β)) :
    (setEntry k v l).map Prod.fst =
      if k ∈ l.map Prod.fst then l.map Prod.fst else l.map Prod.fst ++ [k] := by
  induction l with
  | nil => simp [setEntry]
  | cons entry rest ih =>
      obtain ⟨k', v'⟩ := entry
      rw [setEntry]
      by_cases hk : k' = k
      · simp [hk]
      · rw [if_neg hk]
        simp only [List.map_cons, ih, List.mem_cons, Ne.symm hk, false_or]
        split
        · rfl
        · rw [List.cons_append]

theorem setEntry_of_notMem {k : α} (v : β) {l : List (α × β)} (h : k ∉ l.map Prod.fst) :
    setEntry k v l = l ++ [(k, v)] := by
  induction l with
  | nil => rfl
  | cons entry rest ih =>
      obtain ⟨k', v'⟩ := entry
      rw [List.map_cons, List.mem_cons, not_or] at h
      rw [setEntry, if_neg (Ne.symm h.1), ih h.2, List.cons_append]

/-- `d[k] = v`. -/
def set (d : Dict α β) (k : α) (v : β) : Dict α β where
  entries := setEntry k v d.entries
  distinct := by
    rw [keys_setEntry]
    split
    · exact d.distinct
    · rename_i hk
      refine List.nodup_append.mpr ⟨d.distinct, List.nodup_singleton k, ?_⟩
      intro a ha b hb hab
      obtain rfl := List.mem_singleton.mp hb
      exact hk (hab ▸ ha)

/-- `for k, v in entries: d[k] = v`. -/
def update (d : Dict α β) (entries : List (α × β)) : Dict α β :=
  entries.foldl (fun d entry => d.set entry.1 entry.2) d

/-- Entries in order; a later one gives its value to a key that is there. -/
def ofList (entries : List (α × β)) : Dict α β := empty.update entries

theorem lookup_eq_some_iff {l : List (α × β)} (h : (l.map Prod.fst).Nodup) {k : α} {v : β} :
    l.lookup k = some v ↔ (k, v) ∈ l := by
  induction l with
  | nil => simp
  | cons entry rest ih =>
      obtain ⟨k', v'⟩ := entry
      rw [List.map_cons, List.nodup_cons] at h
      by_cases hk : k = k'
      · subst hk
        have hout : (k, v) ∉ rest := fun hmem => h.1 (List.mem_map.mpr ⟨_, hmem, rfl⟩)
        simp [hout, eq_comm]
      · rw [List.lookup_cons, beq_false_of_ne hk, ih h.2]
        simp [hk]

theorem get?_eq_some_iff {d : Dict α β} {k : α} {v : β} :
    d.get? k = some v ↔ (k, v) ∈ d.entries :=
  lookup_eq_some_iff d.distinct

/-- Looking a key up is finding the first entry that has it. -/
theorem lookup_map {γ : Type*} (f : γ → α × β) (l : List γ) (k : α) :
    (l.map f).lookup k = (l.find? fun x => (f x).1 = k).map fun x => (f x).2 := by
  induction l with
  | nil => rfl
  | cons x rest ih =>
      rw [List.map_cons, List.lookup_cons]
      by_cases hk : (f x).1 = k
      · subst hk
        rw [BEq.rfl, List.find?_cons_of_pos (by simp)]
        rfl
      · rw [beq_false_of_ne (Ne.symm hk), List.find?_cons_of_neg (by simpa using hk)]
        exact ih

theorem lookup_setEntry (k k' : α) (v : β) (l : List (α × β)) :
    (setEntry k v l).lookup k' = if k' = k then some v else l.lookup k' := by
  induction l with
  | nil =>
      by_cases hk : k' = k
      · simp [setEntry, hk]
      · simp [setEntry, List.lookup_cons, hk, beq_false_of_ne hk]
  | cons entry rest ih =>
      obtain ⟨k₀, v₀⟩ := entry
      rw [setEntry]
      by_cases hk : k₀ = k
      · subst hk
        by_cases hk' : k' = k₀
        · simp [hk']
        · simp [hk', List.lookup_cons, beq_false_of_ne hk']
      · rw [if_neg hk, List.lookup_cons, List.lookup_cons, ih]
        by_cases hk' : k' = k₀
        · subst hk'
          simp [hk]
        · simp [beq_false_of_ne hk']

@[simp] theorem get?_set_self (d : Dict α β) (k : α) (v : β) : (d.set k v).get? k = some v := by
  rw [get?, set, lookup_setEntry, if_pos rfl]

theorem get?_set_of_ne (d : Dict α β) {k k' : α} (v : β) (h : k' ≠ k) :
    (d.set k v).get? k' = d.get? k' := by
  rw [get?, set, lookup_setEntry, if_neg h, get?]

/-- The entries that satisfy a test. -/
def filter (d : Dict α β) (p : α × β → Bool) : Dict α β where
  entries := d.entries.filter p
  distinct := (List.filter_sublist.map Prod.fst).nodup d.distinct

theorem get?_filter_eq_some_iff {d : Dict α β} {p : α × β → Bool} {k : α} {v : β} :
    (d.filter p).get? k = some v ↔ d.get? k = some v ∧ p (k, v) = true := by
  rw [get?_eq_some_iff, get?_eq_some_iff, filter, List.mem_filter]

/-- `d.pop(k, None)`. -/
def erase (d : Dict α β) (k : α) : Dict α β := d.filter fun entry => entry.1 ≠ k

omit [DecidableEq α] in
theorem filter_eq_empty {d : Dict α β} {p : α × β → Bool}
    (h : ∀ entry ∈ d.entries, p entry = false) : d.filter p = empty := by
  have hentries : d.entries.filter p = [] :=
    List.filter_eq_nil_iff.mpr fun entry hin => by simp [h entry hin]
  simpa [filter, empty] using hentries

theorem get?_erase_of_ne (d : Dict α β) {k k' : α} (h : k' ≠ k) :
    (d.erase k).get? k' = d.get? k' := by
  ext v
  rw [erase, get?_filter_eq_some_iff]
  simp [h]

@[simp] theorem get?_erase_self (d : Dict α β) (k : α) : (d.erase k).get? k = none := by
  rw [Option.eq_none_iff_forall_ne_some]
  intro v hv
  simpa using (get?_filter_eq_some_iff.mp hv).2

theorem mem_keys_erase {d : Dict α β} {k k' : α} :
    k' ∈ (d.erase k).keys ↔ k' ≠ k ∧ k' ∈ d.keys := by
  simp only [keys, erase, filter, List.mem_map, List.mem_filter, decide_eq_true_eq]
  constructor
  · rintro ⟨entry, ⟨hmem, hne⟩, rfl⟩
    exact ⟨hne, entry, hmem, rfl⟩
  · rintro ⟨hne, entry, hmem, rfl⟩
    exact ⟨entry, ⟨hmem, hne⟩, rfl⟩

/-- Without no key a dictionary is as it was. -/
theorem filter_notMem_nil (d : Dict α β) : (d.filter fun entry => entry.1 ∉ ([] : List α)) = d := by
  simp [filter]

/-- A key is erased first, or with the others. -/
theorem filter_notMem_erase (d : Dict α β) (k : α) (keys : List α) :
    ((d.erase k).filter fun entry => entry.1 ∉ keys) =
      d.filter fun entry => entry.1 ∉ k :: keys := by
  simp only [erase, filter, mk.injEq, List.filter_filter]
  apply List.filter_congr
  intro entry _
  simp [Bool.and_comm]

theorem entries_set_of_notMem {d : Dict α β} {k : α} (v : β) (h : k ∉ d.keys) :
    (d.set k v).entries = d.entries ++ [(k, v)] :=
  setEntry_of_notMem v h

theorem get?_eq_none_iff {d : Dict α β} {k : α} : d.get? k = none ↔ k ∉ d.keys := by
  rw [← not_iff_not, not_not, ← ne_eq, Option.ne_none_iff_exists', keys, List.mem_map]
  constructor
  · rintro ⟨v, hv⟩
    exact ⟨(k, v), get?_eq_some_iff.mp hv, rfl⟩
  · rintro ⟨⟨k₀, v⟩, hentry, rfl⟩
    exact ⟨v, get?_eq_some_iff.mpr hentry⟩

theorem keys_set_of_get?_eq_none {d : Dict α β} {k : α} (v : β) (h : d.get? k = none) :
    (d.set k v).keys = d.keys ++ [k] := by
  rw [keys, entries_set_of_notMem v (get?_eq_none_iff.mp h), List.map_append, List.map_singleton,
    ← keys]

section Collected

variable {γ : Type*} {f : α × β → List γ} {k : α} {v v' : β} {added : List γ}

/-- Replacing a value collects what the new value has more than the old one. -/
theorem perm_flatMap_setEntry {l : List (α × β)} (h : l.lookup k = some v)
    (hadded : f (k, v') = f (k, v) ++ added) :
    ((setEntry k v' l).flatMap f).Perm (l.flatMap f ++ added) := by
  induction l with
  | nil => cases h
  | cons entry rest ih =>
      obtain ⟨k₀, v₀⟩ := entry
      rw [setEntry, List.flatMap_cons, List.append_assoc]
      by_cases hk : k₀ = k
      · subst hk
        obtain rfl : v₀ = v := by simpa using h
        rw [if_pos rfl, List.flatMap_cons, hadded, List.append_assoc]
        exact List.perm_append_comm.append_left _
      · rw [List.lookup_cons, beq_false_of_ne (Ne.symm hk)] at h
        rw [if_neg hk, List.flatMap_cons]
        exact (ih h).append_left _

/-- Setting a key collects what its value has more than the value before. -/
theorem perm_flatMap_set {d : Dict α β} (hnew : d.get? k = none → f (k, v') = added)
    (hold : ∀ v, d.get? k = some v → f (k, v') = f (k, v) ++ added) :
    ((d.set k v').entries.flatMap f).Perm (d.entries.flatMap f ++ added) := by
  cases h : d.get? k with
  | some v => exact perm_flatMap_setEntry h (hold v h)
  | none =>
      rw [entries_set_of_notMem v' (get?_eq_none_iff.mp h), List.flatMap_append,
        List.flatMap_singleton, hnew h]

theorem mem_entries_set {d : Dict α β} {entry : α × β} (h : entry ∈ (d.set k v').entries) :
    entry = (k, v') ∨ entry ∈ d.entries := by
  obtain ⟨k₀, v₀⟩ := entry
  rw [← get?_eq_some_iff] at h ⊢
  by_cases hk : k₀ = k
  · subst hk
    rw [get?_set_self] at h
    simp_all
  · rw [get?_set_of_ne d v' hk] at h
    exact .inr h

end Collected

section Totals

variable {f : β → ℕ} {k : α} {v v' : β}

/-- What the values count together. -/
def total (f : β → ℕ) (d : Dict α β) : ℕ := (d.entries.map fun entry => f entry.2).sum

/-- Setting a key counts its new value in place of the old one. -/
theorem total_set {d : Dict α β} (h : d.get? k = some v) :
    (d.set k v').total f + f v = d.total f + f v' := by
  suffices hgo : ∀ l : List (α × β), l.lookup k = some v →
      ((setEntry k v' l).map fun entry => f entry.2).sum + f v =
        (l.map fun entry => f entry.2).sum + f v' from hgo d.entries h
  intro l hl
  induction l with
  | nil => cases hl
  | cons entry rest ih =>
      obtain ⟨k₀, v₀⟩ := entry
      rw [setEntry]
      by_cases hk : k₀ = k
      · subst hk
        obtain rfl : v₀ = v := by simpa using hl
        rw [if_pos rfl]
        simp only [List.map_cons, List.sum_cons]
        omega
      · rw [List.lookup_cons, beq_false_of_ne (Ne.symm hk)] at hl
        rw [if_neg hk]
        simp only [List.map_cons, List.sum_cons]
        have := ih hl
        omega

theorem total_set_of_none {d : Dict α β} (h : d.get? k = none) :
    (d.set k v').total f = d.total f + f v' := by
  rw [total, entries_set_of_notMem v' (get?_eq_none_iff.mp h), List.map_append, List.sum_append]
  simp [total]

theorem total_erase {d : Dict α β} (h : d.get? k = some v) :
    (d.erase k).total f + f v = d.total f := by
  suffices hgo : ∀ l : List (α × β), (l.map Prod.fst).Nodup → l.lookup k = some v →
      ((l.filter fun entry => entry.1 ≠ k).map fun entry => f entry.2).sum + f v =
        (l.map fun entry => f entry.2).sum from hgo d.entries d.distinct h
  intro l hl hlookup
  induction l with
  | nil => cases hlookup
  | cons entry rest ih =>
      obtain ⟨k₀, v₀⟩ := entry
      rw [List.map_cons, List.nodup_cons] at hl
      by_cases hk : k₀ = k
      · subst hk
        obtain rfl : v₀ = v := by simpa using hlookup
        have hrest : rest.filter (fun entry => entry.1 ≠ k₀) = rest := by
          rw [List.filter_eq_self]
          rintro ⟨k₁, v₁⟩ hentry
          have hne : k₁ ≠ k₀ := by
            rintro rfl
            exact hl.1 (List.mem_map.mpr ⟨_, hentry, rfl⟩)
          simpa using hne
        rw [List.filter_cons_of_neg (by simp), hrest, List.map_cons, List.sum_cons, add_comm]
      · rw [List.lookup_cons, beq_false_of_ne (Ne.symm hk)] at hlookup
        rw [List.filter_cons_of_pos (by simpa using hk)]
        simp only [List.map_cons, List.sum_cons]
        have := ih hl.2 hlookup
        omega

theorem erase_of_get?_eq_none {d : Dict α β} {k : α} (h : d.get? k = none) : d.erase k = d := by
  have hentries : (d.erase k).entries = d.entries := by
    apply List.filter_eq_self.mpr
    intro entry hentry
    have hne : entry.1 ≠ k := by
      rintro rfl
      exact get?_eq_none_iff.mp h (List.mem_map.mpr ⟨entry, hentry, rfl⟩)
    simpa using hne
  cases d
  simpa [erase, filter] using hentries

/-- What a key's value counts, and the rest. -/
theorem total_erase_add (d : Dict α β) (k : α) :
    (d.erase k).total f + ((d.get? k).map f).getD 0 = d.total f := by
  cases h : d.get? k with
  | none => rw [erase_of_get?_eq_none h]; rfl
  | some v => exact total_erase h

theorem map_get?_erase (d : Dict α β) {k : α} {keys : List α} (h : k ∉ keys) :
    (keys.map fun k' => (((d.erase k).get? k').map f).getD 0) =
      keys.map fun k' => ((d.get? k').map f).getD 0 := by
  apply List.map_congr_left
  intro k' hk'
  rw [get?_erase_of_ne d fun heq : k' = k => h (heq ▸ hk')]

/-- Distinct keys count at most what all do. -/
theorem sum_get?_le_total {d : Dict α β} {keys : List α} (h : keys.Nodup) :
    (keys.map fun k => ((d.get? k).map f).getD 0).sum ≤ d.total f := by
  induction keys generalizing d with
  | nil => exact Nat.zero_le _
  | cons k rest ih =>
      obtain ⟨hk, hrest⟩ := List.nodup_cons.mp h
      have hle := ih (d := d.erase k) hrest
      rw [map_get?_erase d hk] at hle
      rw [List.map_cons, List.sum_cons, ← total_erase_add d k]
      omega

/-- Keys that cover the dict count at least what all do. -/
theorem total_le_sum_get? {d : Dict α β} {keys : List α} (hkeys : keys.Nodup)
    (h : ∀ k ∈ d.keys, k ∈ keys) :
    d.total f ≤ (keys.map fun k => ((d.get? k).map f).getD 0).sum := by
  induction keys generalizing d with
  | nil =>
      have hnone : d.entries = [] := by
        rw [List.eq_nil_iff_forall_not_mem]
        intro entry hentry
        exact absurd (h entry.1 (List.mem_map.mpr ⟨entry, hentry, rfl⟩)) List.not_mem_nil
      simp [total, hnone]
  | cons k rest ih =>
      obtain ⟨hk, hrest⟩ := List.nodup_cons.mp hkeys
      have hle := ih (d := d.erase k) hrest fun k' hk' => by
        obtain ⟨entry, hentry, rfl⟩ := List.mem_map.mp hk'
        obtain ⟨hin, hne⟩ := List.mem_filter.mp hentry
        have hmem := h entry.1 (List.mem_map.mpr ⟨entry, hin, rfl⟩)
        exact (List.mem_cons.mp hmem).resolve_left (by simpa using hne)
      rw [map_get?_erase d hk] at hle
      rw [List.map_cons, List.sum_cons, ← total_erase_add d k]
      omega

end Totals

/-- Setting new distinct keys adds one entry a key. -/
theorem entries_update_of_nodup {d : Dict α β} {l : List (α × β)}
    (h : (d.keys ++ l.map Prod.fst).Nodup) : (d.update l).entries = d.entries ++ l := by
  induction l generalizing d with
  | nil => exact (List.append_nil _).symm
  | cons entry rest ih =>
      obtain ⟨k, v⟩ := entry
      have hkeys : d.keys ++ ((k, v) :: rest).map Prod.fst =
          (d.keys ++ [k]) ++ rest.map Prod.fst := by simp
      rw [hkeys] at h
      have hk : k ∉ d.keys := by
        intro hmem
        exact (List.nodup_append.mp (List.nodup_append.mp h).1).2.2 k hmem k (by simp) rfl
      have hset := entries_set_of_notMem v hk
      change ((d.set k v).update rest).entries = _
      rw [ih (by rw [keys, hset, List.map_append]; exact h), hset, List.append_assoc,
        List.singleton_append]

theorem entries_ofList_of_nodup {l : List (α × β)} (h : (l.map Prod.fst).Nodup) :
    (ofList l).entries = l :=
  entries_update_of_nodup h

/-- What a dictionary holds was set, or was there before. -/
theorem mem_of_get?_update {d : Dict α β} {l : List (α × β)} {k : α} {v : β}
    (h : (d.update l).get? k = some v) : (k, v) ∈ l ∨ d.get? k = some v := by
  induction l generalizing d with
  | nil => exact .inr h
  | cons entry rest ih =>
      obtain ⟨k', v'⟩ := entry
      cases ih (d := d.set k' v') h with
      | inl hrest => exact .inl (by simp [hrest])
      | inr hset =>
          by_cases hk : k = k'
          · subst hk
            rw [get?_set_self, Option.some.injEq] at hset
            exact .inl (by simp [hset])
          · rw [get?_set_of_ne d v' hk] at hset
            exact .inr hset

/-- The keys after an update are those before and those that are set. -/
theorem isSome_get?_update {d : Dict α β} {l : List (α × β)} {k : α} :
    ((d.update l).get? k).isSome = true ↔ (d.get? k).isSome = true ∨ k ∈ l.map Prod.fst := by
  induction l generalizing d with
  | nil => simp [update]
  | cons entry rest ih =>
      obtain ⟨k', v'⟩ := entry
      change ((update (d.set k' v') rest).get? k).isSome = true ↔ _
      rw [ih, List.map_cons, List.mem_cons]
      by_cases hk : k = k'
      · subst hk
        simp
      · rw [get?_set_of_ne d v' hk]
        simp [hk]

theorem mem_of_get?_ofList {l : List (α × β)} {k : α} {v : β}
    (h : (ofList l).get? k = some v) : (k, v) ∈ l := by
  cases mem_of_get?_update h with
  | inl hmem => exact hmem
  | inr hempty => cases hempty

end Dict

end A2aItk.Python
