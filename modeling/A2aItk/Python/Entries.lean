import A2aItk.Python.Json

/-!
# The entries of a mapping

`get`, `pop`, item assignment and `setdefault` over entries whose keys are compared
by `==`, whatever the values are, and what they keep of a relation between values.
-/

namespace A2aItk.Python

namespace Entries

variable {β γ : Type*}

section Operations

variable (key : Scalar)

/-- `d.get(key)`. -/
def lookup (entries : List (Scalar × β)) : Option β :=
  (entries.find? fun entry => entry.1.eq key).map Prod.snd

/-- `d.pop(key, None)`, without the value. -/
def pop (entries : List (Scalar × β)) : List (Scalar × β) :=
  entries.filter fun entry => !entry.1.eq key

/-- `d[key] = v`. -/
def setItem (v : β) (entries : List (Scalar × β)) : List (Scalar × β) :=
  if (lookup key entries).isSome then
    entries.map fun entry => if entry.1.eq key then (entry.1, v) else entry
  else entries ++ [(key, v)]

/-- `d.setdefault(key, v)`. -/
def setDefault (v : β) (entries : List (Scalar × β)) : List (Scalar × β) :=
  if (lookup key entries).isSome then entries else entries ++ [(key, v)]

end Operations

variable {key k : Scalar} {v w : β} {entries rest : List (Scalar × β)}

theorem str_eq_iff {text : String} : (Scalar.str text).eq k = true ↔ k = .str text :=
  ⟨fun h => scalar_eq_str_iff.mp (Scalar.eq_symm h),
    fun h => h ▸ scalar_eq_str_iff.mpr rfl⟩

theorem str_eq_false {text : String} (h : k ≠ .str text) : (Scalar.str text).eq k = false := by
  rw [Bool.eq_false_iff, ne_eq, str_eq_iff]
  exact h

@[simp] theorem lookup_nil (k : Scalar) : lookup k ([] : List (Scalar × β)) = none := rfl

theorem lookup_cons (k : Scalar) (entry : Scalar × β) (entries : List (Scalar × β)) :
    lookup k (entry :: entries) = if entry.1.eq k then some entry.2 else lookup k entries := by
  unfold lookup
  rw [List.find?_cons]
  cases entry.1.eq k <;> rfl

theorem lookup_append (k : Scalar) (entries rest : List (Scalar × β)) :
    lookup k (entries ++ rest) = (lookup k entries).or (lookup k rest) := by
  unfold lookup
  rw [List.find?_append]
  cases List.find? (fun entry => entry.1.eq k) entries <;> rfl

/-- Keys that are equal find the same entry. -/
theorem lookup_congr (h : key.eq k = true) (entries : List (Scalar × β)) :
    lookup k entries = lookup key entries := by
  unfold lookup
  have hsame : (fun entry : Scalar × β => entry.1.eq k) = fun entry => entry.1.eq key := by
    ext entry
    rw [Bool.eq_iff_iff]
    exact ⟨fun hk => Scalar.eq_trans hk (Scalar.eq_symm h), fun hk => Scalar.eq_trans hk h⟩
  rw [hsame]

theorem lookup_pop_self (key : Scalar) (entries : List (Scalar × β)) :
    lookup key (pop key entries) = none := by
  rw [lookup, Option.map_eq_none_iff, List.find?_eq_none]
  intro entry hentry
  simpa using (List.mem_filter.mp hentry).2

theorem lookup_pop_of_ne (h : key.eq k = false) (entries : List (Scalar × β)) :
    lookup k (pop key entries) = lookup k entries := by
  induction entries with
  | nil => rfl
  | cons entry entries ih =>
      rw [pop, List.filter_cons, lookup_cons]
      by_cases hkey : entry.1.eq key = true
      · have hno : ¬ entry.1.eq k = true := by
          intro hk
          rw [Scalar.eq_trans (Scalar.eq_symm hkey) hk] at h
          cases h
        rw [if_neg hno, hkey]
        exact ih
      · simp only [Bool.not_eq_true] at hkey
        rw [hkey, Bool.not_false, if_pos rfl, lookup_cons]
        exact congrArg (fun found => if entry.1.eq k then some entry.2 else found) ih

theorem pop_eq_self (h : lookup key entries = none) : pop key entries = entries := by
  rw [lookup, Option.map_eq_none_iff, List.find?_eq_none] at h
  rw [pop, List.filter_eq_self]
  intro entry hentry
  simpa using h entry hentry

theorem lookup_setDefault (k key : Scalar) (v : β) (entries : List (Scalar × β)) :
    lookup k (setDefault key v entries) =
      (lookup k entries).or (if key.eq k then some v else none) := by
  unfold setDefault
  split
  · rename_i hfound
    by_cases hkey : key.eq k = true
    · rw [← lookup_congr hkey] at hfound
      obtain ⟨u, hu⟩ := Option.isSome_iff_exists.mp hfound
      rw [hu, Option.some_or]
    · rw [if_neg hkey, Option.or_none]
  · rw [lookup_append, lookup_cons, lookup_nil]

theorem lookup_setItem_self (key : String) (v : β) (entries : List (Scalar × β)) :
    lookup (.str key) (setItem (.str key) v entries) = some v := by
  unfold setItem
  split
  · rename_i hfound
    induction entries with
    | nil => cases hfound
    | cons entry entries ih =>
        rw [lookup_cons] at hfound
        rw [List.map_cons, lookup_cons]
        by_cases hkey : entry.1.eq (.str key) = true
        · simp [hkey]
        · rw [if_neg hkey] at hfound ⊢
          rw [if_neg hkey]
          exact ih hfound
  · rename_i hmissing
    rw [Option.not_isSome_iff_eq_none] at hmissing
    rw [lookup_append, hmissing, Option.none_or, lookup_cons]
    simp [scalar_eq_str_iff]

theorem lookup_setItem_of_ne (h : key.eq k = false) (v : β) (entries : List (Scalar × β)) :
    lookup k (setItem key v entries) = lookup k entries := by
  unfold setItem
  split
  · clear * - h
    induction entries with
    | nil => rfl
    | cons entry entries ih =>
        rw [List.map_cons, lookup_cons, lookup_cons, ih]
        by_cases hkey : entry.1.eq key = true
        · have hno : ¬ entry.1.eq k = true := by
            intro hk
            rw [Scalar.eq_trans (Scalar.eq_symm hkey) hk] at h
            cases h
          rw [if_pos hkey, if_neg hno, if_neg hno]
        · rw [if_neg hkey]
  · rw [lookup_append, lookup_cons, h, lookup_nil, if_neg Bool.false_ne_true, Option.or_none]

/-- Assignment to a key that is not there leaves the entries as they are. -/
theorem map_eq_self_of_lookup (h : lookup key entries = none) (v : β) :
    (entries.map fun entry => if entry.1.eq key then (entry.1, v) else entry) = entries := by
  rw [lookup, Option.map_eq_none_iff, List.find?_eq_none] at h
  conv_rhs => rw [← List.map_id entries]
  apply List.map_congr_left
  intro entry hentry
  rw [if_neg (h entry hentry)]
  rfl

/-- Every entry of the key holds the value already. -/
theorem setItem_setItem (key : String) (v : β) (entries : List (Scalar × β)) :
    setItem (.str key) v (setItem (.str key) v entries) = setItem (.str key) v entries := by
  conv_lhs => rw [setItem, lookup_setItem_self, Option.isSome_some, if_pos rfl]
  unfold setItem
  split
  · rw [List.map_map]
    apply List.map_congr_left
    intro entry _
    by_cases hkey : entry.1.eq (.str key) = true <;> simp [hkey]
  · rename_i hmissing
    rw [Option.not_isSome_iff_eq_none] at hmissing
    rw [List.map_append, map_eq_self_of_lookup hmissing]
    simp

theorem setItem_cons_self {entry : Scalar × β} (h : entry.1.eq key = true) :
    setItem key v (entry :: entries) =
      (entry.1, v) :: entries.map fun entry => if entry.1.eq key then (entry.1, v) else entry := by
  rw [setItem, lookup_cons, if_pos h, Option.isSome_some, if_pos rfl, List.map_cons, if_pos h]

theorem setItem_cons_of_ne {entry : Scalar × β} (h : entry.1.eq key = false) :
    setItem key v (entry :: entries) = entry :: setItem key v entries := by
  have hlookup : lookup key (entry :: entries) = lookup key entries := by
    rw [lookup_cons, h, if_neg Bool.false_ne_true]
  unfold setItem
  rw [hlookup]
  split
  · rw [List.map_cons, h, if_neg Bool.false_ne_true]
  · rfl

section Relation

/-- The same keys in the same order, with related values. -/
def Related (R : β → γ → Prop) : List (Scalar × β) → List (Scalar × γ) → Prop :=
  List.Forall₂ fun entry entry' => entry.1 = entry'.1 ∧ R entry.2 entry'.2

variable {R : β → γ → Prop} {l : List (Scalar × β)} {l' : List (Scalar × γ)} {v' : γ}

/-- A key is found in both, with related values, or in neither. -/
theorem Related.lookup (h : Related R l l') (key : Scalar) :
    (Entries.lookup key l = none ∧ Entries.lookup key l' = none) ∨
      ∃ v v', Entries.lookup key l = some v ∧ Entries.lookup key l' = some v' ∧ R v v' := by
  induction h with
  | nil => exact .inl ⟨rfl, rfl⟩
  | @cons entry entry' l l' hentry _ ih =>
      rw [lookup_cons, lookup_cons, hentry.1]
      split
      · exact .inr ⟨entry.2, entry'.2, rfl, rfl, hentry.2⟩
      · exact ih

theorem Related.pop (h : Related R l l') (key : Scalar) :
    Related R (Entries.pop key l) (Entries.pop key l') := by
  induction h with
  | nil => exact .nil
  | @cons entry entry' l l' hentry _ ih =>
      rw [Entries.pop, Entries.pop, List.filter_cons, List.filter_cons, hentry.1]
      split
      · exact .cons hentry ih
      · exact ih

theorem Related.isSome_lookup (h : Related R l l') (key : Scalar) :
    (Entries.lookup key l).isSome = (Entries.lookup key l').isSome := by
  rcases h.lookup key with ⟨hl, hl'⟩ | ⟨v, v', hl, hl', _⟩
  · rw [hl, hl']
    rfl
  · rw [hl, hl']
    rfl

theorem Related.append_singleton (h : Related R l l') (key : Scalar) (hv : R v v') :
    Related R (l ++ [(key, v)]) (l' ++ [(key, v')]) := by
  induction h with
  | nil => exact .cons ⟨rfl, hv⟩ .nil
  | cons hentry _ ih => exact .cons hentry ih

theorem Related.setDefault (h : Related R l l') (key : Scalar) (hv : R v v') :
    Related R (Entries.setDefault key v l) (Entries.setDefault key v' l') := by
  unfold Entries.setDefault
  rw [h.isSome_lookup]
  split
  · exact h
  · exact h.append_singleton key hv

theorem Related.setItem (h : Related R l l') (key : Scalar) (hv : R v v') :
    Related R (Entries.setItem key v l) (Entries.setItem key v' l') := by
  unfold Entries.setItem
  rw [h.isSome_lookup]
  split
  · clear * - h hv
    induction h with
    | nil => exact .nil
    | @cons entry entry' l l' hentry _ ih =>
        rw [List.map_cons, List.map_cons, hentry.1]
        refine .cons ?_ ih
        split
        · exact ⟨rfl, hv⟩
        · exact hentry
  · exact h.append_singleton key hv

theorem Related.mono {R' : β → γ → Prop} (h : Related R l l')
    (hmono : ∀ v v', R v v' → R' v v') : Related R' l l' :=
  h.imp fun _ _ hentry => ⟨hentry.1, hmono _ _ hentry.2⟩

end Relation

end Entries

end A2aItk.Python
