import A2aItk.Acts.Agreement
import A2aItk.Python.Json

/-!
# Exact equality and JSON equality

`_same` tells a boolean from a number at the top only. Inside a list or a mapping it
is `==`, for which `true` is 1 and `false` is 0: there two values are taken for the
same that are not.
-/

namespace A2aItk.Acts

open Python Value

/-- The values are the same JSON value, with numbers by value. -/
def SameJson (a b : Value) : Prop := a.json Scalar.exact = b.json Scalar.exact

/-- The values are lists or mappings that differ only where one has a boolean and the
other the number it counts as. -/
def Confused (a b : Value) : Prop :=
  (a.array?.isSome = true ∨ a.isMapping = true) ∧
    a.json Scalar.numeric = b.json Scalar.numeric ∧ ¬SameJson a b

section Same

variable {a b : Value}

theorem numeric_of_exact (s t : Scalar) (h : s.exact = t.exact) : s.numeric = t.numeric := by
  cases s <;> cases t <;> simp_all [Scalar.exact, Scalar.numeric]

theorem same_iff (ha : a.IsJson) (hb : b.IsJson) :
    same a b = true ↔
      a.isBool = b.isBool ∧ a.json Scalar.numeric = b.json Scalar.numeric := by
  rw [same, Bool.and_eq_true, beq_iff_eq, eq_iff_numeric ha hb]

theorem SameJson.same (ha : a.IsJson) (hb : b.IsJson) (h : SameJson a b) : same a b = true := by
  rw [same_iff ha hb]
  refine ⟨?_, json_eq_of_json_eq numeric_of_exact ha.distinct hb.distinct h⟩
  cases a with
  | scalar s =>
      cases b with
      | scalar t =>
          have hexact : s.exact = t.exact := by simpa [SameJson, json] using h
          cases s <;> cases t <;> simp_all [Scalar.exact, Value.isBool]
      | _ => simp [SameJson, json] at h
  | list as => cases b <;> simp_all [SameJson, json, Value.isBool]
  | dict as => cases b <;> simp_all [SameJson, json, Value.isBool]

theorem exact_of_numeric {s t : Scalar} (hbool : (Value.scalar s).isBool = (Value.scalar t).isBool)
    (h : s.numeric = t.numeric) : s.exact = t.exact := by
  cases s with
  | bool b =>
      cases t with
      | bool c =>
          cases b <;> cases c <;> simp_all [Scalar.numeric]
      | _ => cases hbool
  | _ =>
      cases t <;> simp_all [Scalar.exact, Scalar.numeric, Value.isBool]

/-- On scalars the two notions agree. -/
theorem same_scalar_iff {s : Scalar} (ha : (Value.scalar s).IsJson) (hb : b.IsJson) :
    same (.scalar s) b = true ↔ SameJson (.scalar s) b := by
  constructor
  · intro h
    obtain ⟨hbool, hnumeric⟩ := (same_iff ha hb).mp h
    cases b with
    | scalar t =>
        have hscalar : s.numeric = t.numeric := by simpa [json] using hnumeric
        exact congrArg Json.atom (exact_of_numeric hbool hscalar)
    | _ => simp [json] at hnumeric
  · exact fun h => h.same ha hb

theorem Confused.same (ha : a.IsJson) (hb : b.IsJson) (h : Confused a b) : same a b = true := by
  obtain ⟨hcontainer, hnumeric, -⟩ := h
  refine (same_iff ha hb).mpr ⟨?_, hnumeric⟩
  cases a with
  | scalar s => simp [Value.array?, Value.isMapping] at hcontainer
  | list as => cases b <;> simp_all [json, Value.isBool]
  | dict as => cases b <;> simp_all [json, Value.isBool]

theorem sameJson_of_same (ha : a.IsJson) (hb : b.IsJson) (h : same a b = true)
    (hclear : ¬Confused a b) : SameJson a b := by
  cases a with
  | scalar s => exact (same_scalar_iff ha hb).mp h
  | list as =>
      by_contra hdiffer
      exact hclear ⟨.inl rfl, ((same_iff ha hb).mp h).2, hdiffer⟩
  | dict as =>
      by_contra hdiffer
      exact hclear ⟨.inr rfl, ((same_iff ha hb).mp h).2, hdiffer⟩

/-- On lists and mappings they agree unless a boolean is taken for a number. -/
theorem same_iff_sameJson_iff (ha : a.IsJson) (hb : b.IsJson) :
    (same a b = true ↔ SameJson a b) ↔ ¬Confused a b := by
  constructor
  · intro hiff hconfused
    exact hconfused.2.2 (hiff.mp (hconfused.same ha hb))
  · intro hclear
    exact ⟨fun h => sameJson_of_same ha hb h hclear, fun h => h.same ha hb⟩

end Same

section OneOf

variable (py : Interpreter) {options : List Value}

/-- The assertion that a value is one of the options. -/
def oneOf (options : List Value) : Value := .object [("one_of", .list options)]

theorem operator?_oneOf (options : List Value) :
    operator? (.str "one_of") (.list options) = some .oneOf := rfl

theorem satisfiesOption_of_values (h : ∀ option ∈ options, option.isMapping = false)
    (fold : Scalar → Scalar) (actual : Option Value) :
    satisfiesOption py fold options actual =
      options.any fun option => actual.any fun v => same v option := by
  induction options with
  | nil => rfl
  | cons option rest ih =>
      have hrest := ih fun o ho => h o (List.mem_cons_of_mem _ ho)
      have hoption := h option List.mem_cons_self
      cases option with
      | dict entries => cases hoption
      | list items => simp only [satisfiesOption, hrest, List.any_cons]
      | scalar s => simp only [satisfiesOption, hrest, List.any_cons]

theorem stumblesOption_of_values (h : ∀ option ∈ options, option.isMapping = false)
    (fold : Scalar → Scalar) (actual : Option Value) :
    stumblesOption py fold options actual = false := by
  induction options with
  | nil => rfl
  | cons option rest ih =>
      have hrest := ih fun o ho => h o (List.mem_cons_of_mem _ ho)
      have hoption := h option List.mem_cons_self
      cases option with
      | dict entries => cases hoption
      | list items => simp only [stumblesOption, hrest, Bool.and_false]
      | scalar s => simp only [stumblesOption, hrest, Bool.and_false]

/-- Options that are values are compared with the value, one after the other. -/
theorem evaluate_oneOf (h : ∀ option ∈ options, option.isMapping = false)
    (actual : Option Value) (path : Scalar) :
    ∃ result, evaluate py id (oneOf options) actual path = .ok result ∧
      result.ok = options.any fun option => actual.any fun v => same v option := by
  have hagrees : Agrees py (oneOf options) := agrees _
  have hends := hagrees id actual path
  have hstumbles : stumbles py id (oneOf options) actual path.truthy = false := by
    rw [oneOf, Value.object, stumbles]
    change stumblesMap py id [(.str "one_of", .list options)] actual path.truthy = false
    unfold stumblesMap
    simp only [operator?_oneOf, stumblesOption_of_values py h, Bool.and_false, Bool.false_or]
    rfl
  have hsatisfies : satisfies py id (oneOf options) actual =
      options.any fun option => actual.any fun v => same v option := by
    rw [oneOf, Value.object, satisfies]
    change satisfiesMap py id [(.str "one_of", .list options)] actual = _
    unfold satisfiesMap
    simp only [operator?_oneOf, satisfiesOption_of_values py h]
    cases actual with
    | none => simp
    | some v => simp [satisfiesMap]
  obtain ⟨result, hresult⟩ := hends.returns_iff.mpr hstumbles
  exact ⟨result, hresult, (hends.of_eq_ok hresult).ok.trans hsatisfies⟩

/-- Membership by `_same` is JSON membership when a member is the value itself, or no
option is confused with it. -/
theorem any_same_iff {v : Value} (hv : v.IsJson) (hjson : ∀ option ∈ options, option.IsJson) :
    (((options.any fun option => same v option) = true ↔ ∃ option ∈ options, SameJson v option) ↔
      (∃ option ∈ options, SameJson v option) ∨ ∀ option ∈ options, ¬Confused v option) := by
  rw [List.any_eq_true]
  constructor
  · intro hiff
    by_cases hfound : ∃ option ∈ options, SameJson v option
    · exact .inl hfound
    · right
      intro option hoption hconfused
      exact hfound (hiff.mp ⟨option, hoption, hconfused.same hv (hjson option hoption)⟩)
  · rintro (hfound | hclear)
    · obtain ⟨option, hoption, hsame⟩ := hfound
      exact ⟨fun _ => ⟨option, hoption, hsame⟩,
        fun _ => ⟨option, hoption, hsame.same hv (hjson option hoption)⟩⟩
    · constructor
      · rintro ⟨option, hoption, hsame⟩
        exact ⟨option, hoption,
          sameJson_of_same hv (hjson option hoption) hsame (hclear option hoption)⟩
      · rintro ⟨option, hoption, hsame⟩
        exact ⟨option, hoption, hsame.same hv (hjson option hoption)⟩

end OneOf

section Exact

/-- `_same` is JSON equality, and `one_of` with values JSON membership, exactly when no
list or mapping is confused with another. With scalars `one_of` always is what each
option is as an assertion. -/
theorem exact_equality_is_json_equality_iff (py : Interpreter) :
    (∀ a b : Value, a.IsJson → b.IsJson →
      ((same a b = true ↔ SameJson a b) ↔ ¬Confused a b)) ∧
    (∀ (options : List Value) (v : Value) (path : Scalar), v.IsJson →
      (∀ option ∈ options, option.IsJson ∧ option.isMapping = false) →
      ∃ result, evaluate py id (oneOf options) (some v) path = .ok result ∧
        ((result.ok = true ↔ ∃ option ∈ options, SameJson v option) ↔
          (∃ option ∈ options, SameJson v option) ∨ ∀ option ∈ options, ¬Confused v option)) ∧
    ∀ (options : List Scalar) (actual : Option Value) (path : Scalar),
      ∃ result, evaluate py id (oneOf (options.map .scalar)) actual path = .ok result ∧
        (result.ok = true ↔ ∃ option ∈ options, ∃ outcome,
          evaluate py id (.scalar option) actual path = .ok outcome ∧ outcome.ok = true) := by
  refine ⟨fun a b ha hb => same_iff_sameJson_iff ha hb, ?_, ?_⟩
  · intro options v path hv hoptions
    obtain ⟨result, hresult, hok⟩ :=
      evaluate_oneOf py (fun option h => (hoptions option h).2) (some v) path
    refine ⟨result, hresult, ?_⟩
    rw [hok]
    exact any_same_iff hv fun option h => (hoptions option h).1
  · intro options actual path
    have hvalues : ∀ option ∈ options.map Value.scalar, option.isMapping = false := by
      intro option h
      obtain ⟨s, -, rfl⟩ := List.mem_map.mp h
      rfl
    obtain ⟨result, hresult, hok⟩ := evaluate_oneOf py hvalues actual path
    refine ⟨result, hresult, ?_⟩
    simp only [hok, List.any_map, List.any_eq_true, Function.comp_apply]
    apply exists_congr
    intro option
    apply and_congr_right
    intro _
    have hexact : Reports (actual.any fun v => same v (.scalar option)) true
        (evaluateExact py (.scalar option) actual path) := reports_evaluateExact py _
    constructor
    · intro hsame
      exact ⟨_, rfl, hexact.ok.trans hsame⟩
    · rintro ⟨outcome, houtcome, hok'⟩
      obtain rfl := Except.ok.inj houtcome
      exact hexact.ok.symm.trans hok'

theorem exact_equality_of_numbers :
    (same (.list [.int 1]) (.list [.scalar (.float (.finite 1))]) = true ↔
      SameJson (.list [.int 1]) (.list [.scalar (.float (.finite 1))])) := by
  have hsame : SameJson (.list [.int 1]) (.list [.scalar (.float (.finite 1))]) := by
    simp [SameJson, json, jsonItems, Scalar.exact]
  apply ((exact_equality_is_json_equality_iff .plain).1 _ _ ?_ ?_).mpr
  · exact fun hconfused => hconfused.2.2 hsame
  · exact ⟨trivial, trivial⟩
  · exact ⟨by simp [WellFormed, Scalar.IsJson], trivial⟩

/-- `[true] == [1]`. -/
theorem boolean_in_list_is_number :
    ¬∀ a b : Value, a.IsJson → b.IsJson → (same a b = true ↔ SameJson a b) := by
  intro h
  have hsame : SameJson (.list [.bool true]) (.list [.int 1]) :=
    (h (.list [.bool true]) (.list [.int 1]) ⟨trivial, trivial⟩ ⟨trivial, trivial⟩).mp rfl
  simp [SameJson, json, jsonItems, Scalar.exact] at hsame

end Exact

end A2aItk.Acts
