import A2aItk.Python.Exceptions
import A2aItk.Python.Value

/-!
# Reading data whose shape is not known

The operators a program applies to parsed data, with what they raise where the
data is of another type.
-/

namespace A2aItk.Python

/-- Only a text equals a text. -/
theorem scalar_eq_str_iff {s : Scalar} {text : String} :
    s.eq (.str text) = true ↔ s = .str text := by
  cases s <;> simp [Scalar.eq, Scalar.number?]

namespace Value

/-- `key in v`. -/
def hasKey (key : String) : Value → Except PyError Bool
  | .dict entries => pure (lookup (.str key) entries).isSome
  | .list items => pure (items.any fun item => item.eq (.str key))
  | .scalar (.str s) => pure (decide (key.toList <:+: s.toList))
  | .scalar _ => throw .typeError

/-- `v[key]`. -/
def item (key : String) : Value → Except PyError Value
  | .dict entries =>
      match lookup (.str key) entries with
      | some v => pure v
      | none => throw (.keyError (Text.repr key))
  | _ => throw .typeError

/-- `v.get(key, fallback)`. -/
def getOr (v : Value) (key : String) (fallback : Value) : Except PyError Value :=
  match v with
  | .dict entries => pure ((lookup (.str key) entries).getD fallback)
  | _ => throw .attributeError

/-- What `for x in v` goes through. -/
def iterate : Value → Except PyError (List Value)
  | .list items => pure items
  | .dict entries => pure (entries.map fun entry => .scalar entry.1)
  | .scalar (.str s) => pure (s.toList.map fun c => .str (String.singleton c))
  | .scalar _ => throw .typeError

/-- What `for x in v or ()` goes through, where `v` may be missing. -/
def iterateOr (v : Option Value) : Except PyError (List Value) :=
  match v with
  | some v => if v.truthy then v.iterate else pure []
  | none => pure []

/-- `{**v, key: w}`, by its entries. -/
def setKey (key : String) (w : Value) (entries : List (Scalar × Value)) :
    List (Scalar × Value) :=
  if (lookup (.str key) entries).isSome then
    entries.map fun entry => if entry.1.eq (.str key) then (entry.1, w) else entry
  else entries ++ [(.str key, w)]

/-- The object of the fields that are set. -/
def given (fields : List (String × Option Value)) : Value :=
  object (fields.filterMap fun field => field.2.map fun v => (field.1, v))

/-- The items as text, as `str.join` needs them. -/
def texts (items : List Value) : Except PyError (List String) :=
  items.mapM fun item =>
    match item.text? with
    | some s => pure s
    | none => throw .typeError

/-- A field of an object is found under its text. -/
theorem lookup_object (key : String) (fields : List (String × Value)) :
    lookup (.str key) (fields.map fun field => (.str field.1, field.2)) = fields.lookup key := by
  induction fields with
  | nil => rfl
  | cons field rest ih =>
      obtain ⟨name, v⟩ := field
      rw [List.map_cons, List.lookup_cons, lookup, List.find?_cons]
      by_cases hname : name = key
      · subst hname
        simp [Scalar.eq, Scalar.number?]
      · have hscalar : Scalar.eq (.str name) (.str key) = false := by
          simp [Scalar.eq, Scalar.number?, hname]
        have hkey : (key == name) = false := by simpa using Ne.symm hname
        simp only [hscalar, hkey]
        exact ih

theorem item_object {key : String} {fields : List (String × Value)} {v : Value}
    (h : fields.lookup key = some v) : (object fields).item key = .ok v := by
  simp only [object, item, lookup_object, h]
  rfl

theorem getOr_object (key : String) (fields : List (String × Value)) (fallback : Value) :
    (object fields).getOr key fallback = .ok ((fields.lookup key).getD fallback) := by
  simp only [object, getOr, lookup_object]
  rfl

/-- The fields that are set, by name. -/
theorem lookup_given (key : String) {fields : List (String × Option Value)}
    (h : (fields.map Prod.fst).Nodup) :
    (fields.filterMap fun field => field.2.map fun v => (field.1, v)).lookup key =
      (fields.lookup key).join := by
  induction fields with
  | nil => rfl
  | cons field rest ih =>
      obtain ⟨name, v⟩ := field
      rw [List.map_cons, List.nodup_cons] at h
      have hrest := ih h.2
      by_cases hname : key = name
      · subst hname
        cases v with
        | some v => simp
        | none =>
            -- the name is not given again
            have hmissing : rest.lookup key = none := by
              rw [List.lookup_eq_none_iff]
              rintro ⟨other, w⟩ hentry
              have hne : key ≠ other := by
                rintro rfl
                exact h.1 (List.mem_map.mpr ⟨(key, w), hentry, rfl⟩)
              simpa using hne
            rw [hmissing] at hrest
            simpa using hrest
      · have hkey : (key == name) = false := by simpa using hname
        cases v with
        | some v => simpa [List.lookup_cons, hkey] using hrest
        | none => simpa [List.lookup_cons, hkey] using hrest

theorem getOr_given (fields : List (String × Option Value)) (key : String) (fallback : Value)
    (h : (fields.map Prod.fst).Nodup) :
    (given fields).getOr key fallback = .ok ((fields.lookup key).join.getD fallback) := by
  rw [given, getOr_object, lookup_given key h]

theorem lookup_cons (key : Scalar) (entry : Scalar × Value) (rest : List (Scalar × Value)) :
    lookup key (entry :: rest) =
      if entry.1.eq key then some entry.2 else lookup key rest := by
  unfold lookup
  rw [List.find?_cons]
  cases entry.1.eq key <;> rfl

theorem lookup_setKey_self (key : String) (w : Value) (entries : List (Scalar × Value)) :
    lookup (.str key) (setKey key w entries) = some w := by
  unfold setKey
  split
  · rename_i hfound
    induction entries with
    | nil => cases hfound
    | cons entry rest ih =>
        rw [List.map_cons, lookup_cons]
        rw [lookup_cons] at hfound
        by_cases hkey : entry.1.eq (.str key) = true
        · simp [hkey]
        · rw [if_neg hkey] at hfound ⊢
          rw [if_neg hkey]
          exact ih hfound
  · rename_i hmissing
    induction entries with
    | nil => simp [lookup, scalar_eq_str_iff]
    | cons entry rest ih =>
        rw [List.cons_append, lookup_cons]
        rw [lookup_cons] at hmissing
        by_cases hkey : entry.1.eq (.str key) = true
        · simp [hkey] at hmissing
        · rw [if_neg hkey] at hmissing ⊢
          exact ih hmissing

theorem lookup_setKey_of_ne {key other : String} (w : Value) (entries : List (Scalar × Value))
    (h : other ≠ key) :
    lookup (.str other) (setKey key w entries) = lookup (.str other) entries := by
  have hother : ∀ s : Scalar, s.eq (.str key) = true → s.eq (.str other) = false := by
    intro s hs
    obtain rfl := scalar_eq_str_iff.mp hs
    rw [Bool.eq_false_iff, ne_eq, scalar_eq_str_iff, Scalar.str.injEq]
    exact Ne.symm h
  unfold setKey
  split
  · clear * - hother
    induction entries with
    | nil => rfl
    | cons entry rest ih =>
        rw [List.map_cons, lookup_cons, lookup_cons, ih]
        by_cases hkey : entry.1.eq (.str key) = true
        · rw [if_pos hkey]
          simp [hother entry.1 hkey]
        · rw [if_neg hkey]
  · clear * - hother
    induction entries with
    | nil => simp [lookup, hother _ (scalar_eq_str_iff.mpr rfl)]
    | cons entry rest ih => rw [List.cons_append, lookup_cons, lookup_cons, ih]

@[simp] theorem texts_str (items : List String) : texts (items.map .str) = .ok items := by
  rw [texts, mapM_eq_ok_iff]
  exact List.forall₂_map_left_iff.mpr (List.forall₂_same.mpr fun _ _ => rfl)

end Value

end A2aItk.Python
