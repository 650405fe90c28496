import A2aItk.Acts.JsonEquality
import A2aItk.Acts.NamedFields

/-!
# Assertion trees as an order

A tree without operators is a plain value, and evaluating one value against another
is a preorder. What a tree comes to depends on neither the order of keys nor the path,
a mapping is the conjunction of its entries, and the combinators are the connectives.
-/

namespace A2aItk.Acts

open Python Value

section Verdict

variable (py : Interpreter)

/-- Whether the evaluation is ok; `none` where it raises. -/
def verdict (fold : Scalar → Scalar) (assertion : Value) (actual : Option Value)
    (path : Scalar) : Option Bool :=
  (evaluate py fold assertion actual path).toOption.map AssertionResult.ok

/-- The verdict by the readings of the tree. -/
theorem verdict_eq (fold : Scalar → Scalar) (assertion : Value) (actual : Option Value)
    (path : Scalar) :
    verdict py fold assertion actual path =
      if stumbles py fold assertion actual path.truthy then none
      else some (satisfies py fold assertion actual) := by
  have htree : Agrees py assertion := agrees _
  have hends := htree fold actual path
  unfold verdict
  cases heval : evaluate py fold assertion actual path with
  | error e =>
      rw [heval] at hends
      have hstumbles : stumbles py fold assertion actual path.truthy = true := hends
      rw [hstumbles]
      rfl
  | ok result =>
      rw [heval] at hends
      rw [hends.1, ← hends.2.ok]
      rfl

theorem verdict_eq_some_iff {fold : Scalar → Scalar} {assertion : Value} {actual : Option Value}
    {path : Scalar} {ok : Bool} :
    verdict py fold assertion actual path = some ok ↔
      stumbles py fold assertion actual path.truthy = false ∧
        satisfies py fold assertion actual = ok := by
  rw [verdict_eq]
  cases stumbles py fold assertion actual path.truthy <;> simp

end Verdict

section Entries

variable (py : Interpreter) {fold : Scalar → Scalar} {actual : Option Value} {rooted : Bool}

theorem stumblesMap_cons (entry : Scalar × Value) (rest : List (Scalar × Value)) :
    stumblesMap py fold (entry :: rest) actual rooted =
      (stumblesMap py fold [entry] actual rooted || stumblesMap py fold rest actual rooted) := by
  obtain ⟨key, argument⟩ := entry
  conv_lhs => unfold stumblesMap
  conv_rhs => lhs; unfold stumblesMap
  rw [stumblesMap, Bool.or_false]

theorem satisfiesMap_eq_all (node : List (Scalar × Value)) :
    satisfiesMap py fold node actual =
      node.all fun entry => satisfiesMap py fold [entry] actual := by
  induction node with
  | nil => rfl
  | cons entry rest ih =>
      rw [satisfiesMap_cons, ih, List.all_cons]
      rfl

theorem stumblesMap_eq_any (node : List (Scalar × Value)) :
    stumblesMap py fold node actual rooted =
      node.any fun entry => stumblesMap py fold [entry] actual rooted := by
  induction node with
  | nil => rfl
  | cons entry rest ih => rw [stumblesMap_cons, ih, List.any_cons]

/-- A mapping is ok when each of its keys, taken alone, is. -/
theorem verdict_dict_iff (entries : List (Scalar × Value)) (path : Scalar) :
    verdict py fold (.dict entries) actual path = some true ↔
      ∀ entry ∈ entries, verdict py fold (.dict [entry]) actual path = some true := by
  simp only [verdict_eq_some_iff, stumbles, satisfies]
  rw [stumblesMap_eq_any, satisfiesMap_eq_all, List.any_eq_false, List.all_eq_true]
  simp only [Bool.not_eq_true, forall₂_and]

end Entries

section Combinators

variable (py : Interpreter) (fold : Scalar → Scalar) (actual : Option Value)

theorem operator?_allOf {branches : List Value} (h : branches ≠ []) :
    operator? (.str "all_of") (.list branches) = some .allOf := by
  cases branches with
  | nil => exact absurd rfl h
  | cons branch rest => rfl

theorem operator?_anyOf {branches : List Value} (h : branches ≠ []) :
    operator? (.str "any_of") (.list branches) = some .anyOf := by
  cases branches with
  | nil => exact absurd rfl h
  | cons branch rest => rfl

theorem operator?_not (argument : Value) : operator? (.str "not") argument = some .negation :=
  rfl

theorem satisfiesAll_eq_all (branches : List Value) :
    satisfiesAll py fold branches actual =
      branches.all fun branch => satisfies py fold branch actual := by
  induction branches with
  | nil => rfl
  | cons branch rest ih => rw [satisfiesAll, ih, List.all_cons]

theorem satisfiesAny_eq_any (branches : List Value) :
    satisfiesAny py fold branches actual =
      branches.any fun branch => satisfies py fold branch actual := by
  induction branches with
  | nil => rfl
  | cons branch rest ih => rw [satisfiesAny, ih, List.any_cons]

theorem stumblesBranches_eq_any (branches : List Value) (rooted : Bool) :
    stumblesBranches py fold branches actual rooted =
      branches.any fun branch => stumbles py fold branch actual rooted := by
  induction branches with
  | nil => rfl
  | cons branch rest ih => rw [stumblesBranches, ih, List.any_cons]

/-- A loop that stops at the first item without a value. -/
theorem mapM_ite {α β : Type} (p : α → Bool) (q : α → β) (l : List α) :
    (l.mapM fun a => if p a then none else some (q a)) =
      if l.any p then none else some (l.map q) := by
  induction l with
  | nil => rfl
  | cons a rest ih =>
      rw [List.mapM_cons, ih, List.any_cons]
      cases p a with
      | true => rfl
      | false => cases rest.any p <;> rfl

theorem verdicts_eq (branches : List Value) (path : Scalar) :
    (branches.mapM fun branch => verdict py fold branch actual path) =
      if stumblesBranches py fold branches actual path.truthy then none
      else some (branches.map fun branch => satisfies py fold branch actual) := by
  simp only [verdict_eq]
  rw [mapM_ite, stumblesBranches_eq_any]

/-- A mapping with a single entry. -/
theorem satisfies_entry (key : String) (value : Value) :
    satisfies py fold (.object [(key, value)]) actual =
      satisfiesMap py fold [(.str key, value)] actual := by
  rw [Value.object, satisfies]
  rfl

theorem stumbles_entry (key : String) (value : Value) (rooted : Bool) :
    stumbles py fold (.object [(key, value)]) actual rooted =
      stumblesMap py fold [(.str key, value)] actual rooted := by
  rw [Value.object, stumbles]
  rfl

/-- A tree that stumbles where one of its branches does, and combines what they say. -/
theorem verdict_of_branches {tree : Value} {branches : List Value} {path : Scalar}
    {combine : List Bool → Bool}
    (hstumbles : stumbles py fold tree actual path.truthy =
      stumblesBranches py fold branches actual path.truthy)
    (hsatisfies : satisfies py fold tree actual =
      combine (branches.map fun branch => satisfies py fold branch actual)) :
    verdict py fold tree actual path =
      (branches.mapM fun branch => verdict py fold branch actual path).map combine := by
  rw [verdict_eq, verdicts_eq, hstumbles, hsatisfies]
  cases stumblesBranches py fold branches actual path.truthy <;> rfl

/-- `not` negates. -/
theorem verdict_not (argument : Value) (path : Scalar) :
    verdict py fold (.object [("not", argument)]) actual path =
      (verdict py fold argument actual path).map fun ok => !ok := by
  rw [verdict_eq, verdict_eq]
  have hstumbles : stumbles py fold (.object [("not", argument)]) actual path.truthy =
      stumbles py fold argument actual path.truthy := by
    rw [stumbles_entry]
    unfold stumblesMap
    simp only [operator?_not, stumblesMap, Bool.or_false]
  have hsatisfies : satisfies py fold (.object [("not", argument)]) actual =
      !satisfies py fold argument actual := by
    rw [satisfies_entry]
    unfold satisfiesMap
    simp only [operator?_not, satisfiesMap, Bool.and_true]
  rw [hstumbles, hsatisfies]
  cases stumbles py fold argument actual path.truthy <;> rfl

/-- `all_of` is the conjunction of its branches. -/
theorem verdict_allOf {branches : List Value} (h : branches ≠ []) (path : Scalar) :
    verdict py fold (.object [("all_of", .list branches)]) actual path =
      (branches.mapM fun branch => verdict py fold branch actual path).map
        fun oks => oks.all id := by
  apply verdict_of_branches
  · rw [stumbles_entry]
    unfold stumblesMap
    simp only [operator?_allOf h, stumblesMap, Bool.or_false]
  · rw [satisfies_entry, List.all_map]
    unfold satisfiesMap
    simp only [operator?_allOf h, satisfiesMap, Bool.and_true, satisfiesAll_eq_all]
    rfl

/-- `any_of` is the disjunction of its branches. -/
theorem verdict_anyOf {branches : List Value} (h : branches ≠ []) (path : Scalar) :
    verdict py fold (.object [("any_of", .list branches)]) actual path =
      (branches.mapM fun branch => verdict py fold branch actual path).map
        fun oks => oks.any id := by
  apply verdict_of_branches
  · rw [stumbles_entry]
    unfold stumblesMap
    simp only [operator?_anyOf h, stumblesMap, Bool.or_false]
  · rw [satisfies_entry, List.any_map]
    unfold satisfiesMap
    simp only [operator?_anyOf h, satisfiesMap, Bool.and_true, satisfiesAny_eq_any]
    rfl

end Combinators

section Preorder

mutual

/-- No mapping key, at any depth, is the name of an operator that accepts its value. -/
def OperatorFree : Value → Prop
  | .scalar _ => True
  | .list items => OperatorFreeItems items
  | .dict entries => OperatorFreeEntries entries

def OperatorFreeItems : List Value → Prop
  | [] => True
  | v :: rest => OperatorFree v ∧ OperatorFreeItems rest

def OperatorFreeEntries : List (Scalar × Value) → Prop
  | [] => True
  | (key, v) :: rest => operator? key v = none ∧ OperatorFree v ∧ OperatorFreeEntries rest

end

theorem operatorFree_list_iff {items : List Value} :
    OperatorFree (.list items) ↔ ∀ v ∈ items, OperatorFree v := by
  rw [OperatorFree]
  induction items with
  | nil => simp [OperatorFreeItems]
  | cons v rest ih => rw [OperatorFreeItems, ih, List.forall_mem_cons]

theorem operatorFree_dict_iff {entries : List (Scalar × Value)} :
    OperatorFree (.dict entries) ↔
      ∀ key v, (key, v) ∈ entries → operator? key v = none ∧ OperatorFree v := by
  rw [OperatorFree]
  induction entries with
  | nil => simp [OperatorFreeEntries]
  | cons entry rest ih =>
      obtain ⟨key, v⟩ := entry
      rw [OperatorFreeEntries, ih]
      constructor
      · rintro ⟨hop, hv, hrest⟩ key' v' hmem
        rcases List.mem_cons.mp hmem with heq | hmem
        · cases heq
          exact ⟨hop, hv⟩
        · exact hrest key' v' hmem
      · intro hall
        have hhead := hall key v List.mem_cons_self
        exact ⟨hhead.1, hhead.2, fun key' v' hmem => hall key' v' (List.mem_cons_of_mem _ hmem)⟩

variable (py : Interpreter)

theorem satisfiesMap_field {key : Scalar} {argument : Value} (h : operator? key argument = none)
    (fold : Scalar → Scalar) (actual : Option Value) :
    satisfiesMap py fold [(key, argument)] actual =
      satisfies py id argument (member fold actual key) := by
  unfold satisfiesMap
  simp only [h, satisfiesMap, Bool.and_true]

theorem stumblesMap_field {key : Scalar} {argument : Value} (h : operator? key argument = none)
    (fold : Scalar → Scalar) (actual : Option Value) (rooted : Bool) :
    stumblesMap py fold [(key, argument)] actual rooted =
      ((rooted && !(Value.scalar key).text?.isSome) ||
        stumbles py id argument (member fold actual key) (rooted || key.truthy)) := by
  unfold stumblesMap
  simp only [h, stumblesMap, Bool.or_false]

/-- A mapping without operators is matched field by field. -/
theorem satisfies_dict_iff {entries : List (Scalar × Value)} (h : OperatorFree (.dict entries))
    (actual : Option Value) :
    satisfies py id (.dict entries) actual = true ↔
      ∀ key v, (key, v) ∈ entries → satisfies py id v (member id actual key) = true := by
  rw [operatorFree_dict_iff] at h
  rw [satisfies, satisfiesMap_eq_all, List.all_eq_true]
  constructor
  · intro hall key v hmem
    have hentry := hall (key, v) hmem
    rwa [satisfiesMap_field py (h key v hmem).1] at hentry
  · rintro hall ⟨key, v⟩ hmem
    rw [satisfiesMap_field py (h key v hmem).1]
    exact hall key v hmem

theorem satisfiesPositions_iff (assertions elements : List Value) :
    satisfiesPositions py assertions elements = true ↔
      ∀ (i : ℕ) (a v : Value), assertions[i]? = some a → elements[i]? = some v →
        satisfies py id a (some v) = true := by
  induction assertions generalizing elements with
  | nil => cases elements <;> simp [satisfiesPositions]
  | cons first rest ih =>
      cases elements with
      | nil => simp [satisfiesPositions]
      | cons element others =>
          rw [satisfiesPositions, Bool.and_eq_true, ih]
          constructor
          · rintro ⟨hfirst, hrest⟩ i a v ha hv
            cases i with
            | zero =>
                cases ha
                cases hv
                exact hfirst
            | succ i => exact hrest i a v ha hv
          · intro hall
            exact ⟨hall 0 first element rfl rfl, fun i a v ha hv => hall (i + 1) a v ha hv⟩

/-- A list is matched position by position, against a list that is long enough. -/
theorem satisfies_list_iff {fold : Scalar → Scalar} {items : List Value} {actual : Option Value} :
    satisfies py fold (.list items) actual = true ↔
      ∃ elements, actual = some (.list elements) ∧ items.length ≤ elements.length ∧
        ∀ (i : ℕ) (a v : Value), items[i]? = some a → elements[i]? = some v →
          satisfies py id a (some v) = true := by
  rw [satisfies]
  cases actual with
  | none => simp
  | some v =>
      cases v with
      | list elements => simp [Value.array?, satisfiesPositions_iff]
      | _ => simp [Value.array?]

theorem satisfies_scalar_iff {fold : Scalar → Scalar} {s : Scalar} {actual : Option Value} :
    satisfies py fold (.scalar s) actual = true ↔
      ∃ t, actual = some (.scalar t) ∧ same (.scalar t) (.scalar s) = true := by
  rw [satisfies]
  cases actual with
  | none => simp
  | some v =>
      cases v with
      | scalar t => simp
      | _ => simp [same, Value.eq]

/-- What an absent value satisfies, every value does. -/
theorem satisfies_of_none {assertion : Value} (hfree : OperatorFree assertion)
    (h : satisfies py id assertion none = true) (actual : Option Value) :
    satisfies py id assertion actual = true := by
  induction assertion using induction_below generalizing actual with
  | h assertion ih =>
      cases assertion with
      | scalar s => rw [satisfies] at h; cases h
      | list items => rw [satisfies] at h; cases h
      | dict entries =>
          rw [satisfies_dict_iff py hfree] at h ⊢
          intro key v hmem
          exact (ih.of_mem_dict hmem).1 (operatorFree_dict_iff.mp hfree key v hmem).2
            (h key v hmem) _

theorem satisfies_refl {a : Value} (hjson : a.IsJson) (hfree : OperatorFree a) :
    satisfies py id a (some a) = true := by
  induction a using induction_below with
  | h a ih =>
      cases a with
      | scalar s =>
          exact (satisfies_scalar_iff py).mpr
            ⟨s, rfl, (same_scalar_iff hjson hjson).mpr rfl⟩
      | list items =>
          refine (satisfies_list_iff py).mpr ⟨items, rfl, le_rfl, fun i a v ha hv => ?_⟩
          obtain rfl := Option.some.inj (ha.symm.trans hv)
          have hmem := List.mem_of_getElem? ha
          exact (ih.of_mem_list hmem).1 (wellFormed_list_iff.mp hjson a hmem)
            (operatorFree_list_iff.mp hfree a hmem)
      | dict entries =>
          obtain ⟨hdistinct, hall⟩ := wellFormed_dict_iff.mp hjson
          rw [satisfies_dict_iff py hfree]
          intro key v hmem
          obtain ⟨hname, hv⟩ := hall key v hmem
          have hmember : member id (some (.dict entries)) key = some v :=
            (lookup_eq_some_iff hdistinct).mpr ⟨key, hmem, (name_eq_iff hname).mpr rfl⟩
          rw [hmember]
          exact (ih.of_mem_dict hmem).1 hv (operatorFree_dict_iff.mp hfree key v hmem).2

theorem same_trans {s t u : Scalar} (hst : same (.scalar t) (.scalar s) = true)
    (htu : same (.scalar u) (.scalar t) = true) : same (.scalar u) (.scalar s) = true := by
  simp only [same, Value.eq, Bool.and_eq_true, beq_iff_eq] at *
  exact ⟨htu.1.trans hst.1, Scalar.eq_trans htu.2 hst.2⟩

/-- What a value satisfies that the next one satisfies, the next one does. The third value
may be absent, since a field of the second may be. -/
theorem satisfies_trans {a b : Value} {c : Option Value} (hb : b.IsJson)
    (hfreeA : OperatorFree a) (hfreeB : OperatorFree b)
    (hab : satisfies py id a (some b) = true) (hbc : satisfies py id b c = true) :
    satisfies py id a c = true := by
  induction a using induction_below generalizing b c with
  | h a ih =>
      cases a with
      | scalar s =>
          obtain ⟨t, hbt, hst⟩ := (satisfies_scalar_iff py).mp hab
          obtain rfl := Option.some.inj hbt
          obtain ⟨u, rfl, htu⟩ := (satisfies_scalar_iff py).mp hbc
          exact (satisfies_scalar_iff py).mpr ⟨u, rfl, same_trans hst htu⟩
      | list items =>
          obtain ⟨elements, hbl, hlength, hitems⟩ := (satisfies_list_iff py).mp hab
          obtain rfl := Option.some.inj hbl
          obtain ⟨others, rfl, hlength', helements⟩ := (satisfies_list_iff py).mp hbc
          refine (satisfies_list_iff py).mpr ⟨others, rfl, hlength.trans hlength', ?_⟩
          intro i a w ha hw
          have hi : i < elements.length := by
            have := (List.getElem?_eq_some_iff.mp ha).1
            omega
          have hv : elements[i]? = some elements[i] := List.getElem?_eq_getElem hi
          have hmem := List.mem_of_getElem? ha
          have hmem' := List.mem_of_getElem? hv
          exact (ih.of_mem_list hmem).1 (wellFormed_list_iff.mp hb _ hmem')
            (operatorFree_list_iff.mp hfreeA a hmem) (operatorFree_list_iff.mp hfreeB _ hmem')
            (hitems i a _ ha hv) (helements i _ w hv hw)
      | dict entries =>
          rw [satisfies_dict_iff py hfreeA] at hab ⊢
          intro key v hmem
          have hfreeV := (operatorFree_dict_iff.mp hfreeA key v hmem).2
          have hfield := hab key v hmem
          cases hmember : member id (some b) key with
          | none =>
              rw [hmember] at hfield
              exact satisfies_of_none py hfreeV hfield _
          | some w =>
              rw [hmember] at hfield
              cases b with
              | scalar s => cases hmember
              | list items => cases hmember
              | dict fields =>
                  obtain ⟨hdistinct, hall⟩ := wellFormed_dict_iff.mp hb
                  obtain ⟨key', hmem', hkey⟩ := (lookup_eq_some_iff hdistinct).mp hmember
                  rw [satisfies_dict_iff py hfreeB] at hbc
                  obtain ⟨hname, hw⟩ := hall key' w hmem'
                  obtain rfl := (name_eq_iff hname).mp (Scalar.eq_symm hkey)
                  exact (ih.of_mem_dict hmem).1 hw hfreeV
                    (operatorFree_dict_iff.mp hfreeB _ w hmem').2 hfield (hbc _ w hmem')

theorem stumblesPositions_eq_false {assertions : List Value}
    (h : ∀ a ∈ assertions, ∀ actual rooted, stumbles py id a actual rooted = false)
    (elements : List Value) : stumblesPositions py assertions elements = false := by
  induction assertions generalizing elements with
  | nil => cases elements <;> rfl
  | cons first rest ih =>
      cases elements with
      | nil => rfl
      | cons element others =>
          rw [stumblesPositions, h first (by simp), Bool.false_or]
          exact ih (fun a ha => h a (by simp [ha])) others

/-- Values without operators are evaluated without raising. -/
theorem stumbles_operatorFree {assertion : Value} (hjson : assertion.IsJson)
    (hfree : OperatorFree assertion) (actual : Option Value) (rooted : Bool) :
    stumbles py id assertion actual rooted = false := by
  induction assertion using induction_below generalizing actual rooted with
  | h assertion ih =>
      cases assertion with
      | scalar s => rfl
      | list items =>
          have hitems : ∀ a ∈ items, ∀ actual rooted, stumbles py id a actual rooted = false :=
            fun a ha => (ih.of_mem_list ha).1 (wellFormed_list_iff.mp hjson a ha)
              (operatorFree_list_iff.mp hfree a ha)
          rw [stumbles]
          simp [stumblesPositions_eq_false py hitems]
      | dict entries =>
          obtain ⟨-, hall⟩ := wellFormed_dict_iff.mp hjson
          rw [stumbles, stumblesMap_eq_any, List.any_eq_false]
          rintro ⟨key, v⟩ hmem
          obtain ⟨hop, hv⟩ := operatorFree_dict_iff.mp hfree key v hmem
          obtain ⟨⟨name, rfl⟩, hw⟩ := hall key v hmem
          rw [stumblesMap_field py hop, (ih.of_mem_dict hmem).1 hw hv]
          simp [Value.text?]

end Preorder

end A2aItk.Acts
