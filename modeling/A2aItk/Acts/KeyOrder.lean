import A2aItk.Acts.AssertionOrder

/-!
# The order of keys, and the path

Two trees that differ in the order of keys only, against two values that do so too,
come to the same: the readings of a tree ask a mapping for a key, or all its entries
for the same thing.
-/

namespace A2aItk.Acts

open Python Value

/-- The values are the same up to the order in which mappings list their keys. -/
structure Alike (v w : Value) : Prop where
  left : v.Distinct
  right : w.Distinct
  json : v.json id = w.json id

namespace Alike

variable {v w : Value}

theorem refl (h : v.Distinct) : Alike v v := ⟨h, h, rfl⟩

theorem symm (h : Alike v w) : Alike w v := ⟨h.right, h.left, h.json.symm⟩

theorem scalar {s : Scalar} (h : Alike (.scalar s) w) : w = .scalar s := by
  have hjson := h.json
  cases w with
  | scalar t =>
      rw [Value.json, Value.json, Json.atom.injEq] at hjson
      exact congrArg Value.scalar hjson.symm
  | _ => simp [Value.json] at hjson

theorem list {items : List Value} (h : Alike (.list items) w) :
    ∃ others, w = .list others ∧ List.Forall₂ Alike items others := by
  have hjson := h.json
  cases w with
  | list others =>
      refine ⟨others, rfl, forall₂_imp_of_mem ?_ (json_list_eq_iff.mp hjson)⟩
      intro a ha b hb hab
      exact ⟨wellFormed_list_iff.mp h.left a ha, wellFormed_list_iff.mp h.right b hb, hab⟩
  | _ => simp [Value.json] at hjson

theorem dict {entries : List (Scalar × Value)} (h : Alike (.dict entries) w) :
    ∃ others, w = .dict others ∧ entries.length = others.length ∧
      ∀ key a, (key, a) ∈ entries → ∃ b, (key, b) ∈ others ∧ Alike a b := by
  have hjson := h.json
  cases w with
  | dict others =>
      obtain ⟨hda, hwa⟩ := wellFormed_dict_iff.mp h.left
      obtain ⟨hdb, hwb⟩ := wellFormed_dict_iff.mp h.right
      obtain ⟨hlength, hentries⟩ := (json_dict_eq_iff hda hdb).mp hjson
      refine ⟨others, rfl, hlength, fun key a ha => ?_⟩
      obtain ⟨b, hb, hab⟩ := hentries key a ha
      exact ⟨b, hb, (hwa key a ha).2, (hwb key b hb).2, hab⟩
  | _ => simp [Value.json] at hjson

end Alike

/-- Every entry of one mapping is in the other. -/
theorem Alike.entry {as bs : List (Scalar × Value)} (h : Alike (.dict as) (.dict bs))
    {key : Scalar} {b : Value} (hb : (key, b) ∈ bs) : ∃ a, (key, a) ∈ as ∧ Alike a b := by
  obtain ⟨as', has, -, hentries⟩ := h.symm.dict
  cases has
  obtain ⟨a, ha, hab⟩ := hentries key b hb
  exact ⟨a, ha, hab.symm⟩

/-- Both values are absent, or alike. -/
abbrev AlikeIfAny : Option Value → Option Value → Prop := Option.Rel Alike

section Reading

variable {v w a b : Value}

/-- The values are of one kind, and lists of one length. -/
theorem Alike.shape (h : Alike v w) :
    v.isMapping = w.isMapping ∧ v.array?.map List.length = w.array?.map List.length ∧
      v.text? = w.text? ∧ v.isBool = w.isBool ∧ v.number? = w.number? := by
  cases v with
  | scalar s =>
      obtain rfl := h.scalar
      exact ⟨rfl, rfl, rfl, rfl, rfl⟩
  | list items =>
      obtain ⟨others, rfl, hitems⟩ := h.list
      refine ⟨rfl, ?_, rfl, rfl, rfl⟩
      simp [Value.array?, hitems.length_eq]
  | dict entries =>
      obtain ⟨others, rfl, -, -⟩ := h.dict
      exact ⟨rfl, rfl, rfl, rfl, rfl⟩

/-- A relation between two lists passes to the lists they are matched with. -/
theorem forall₂_transport {α : Type*} {A R S : α → α → Prop} {l r l' r' : List α}
    (h : List.Forall₂ R l r) (hl : List.Forall₂ A l l') (hr : List.Forall₂ A r r')
    (himp : ∀ a ∈ l, ∀ a' b b', A a a' → A b b' → R a b → S a' b') :
    List.Forall₂ S l' r' := by
  induction h generalizing l' r' with
  | nil =>
      cases hl
      cases hr
      exact .nil
  | cons hab hrest ih =>
      cases hl with
      | cons ha hl =>
          cases hr with
          | cons hb hr =>
              exact .cons (himp _ (by simp) _ _ _ ha hb hab)
                (ih hl hr fun c hc => himp c (by simp [hc]))

theorem Alike.eq_of_eq (hv : Alike v w) (ha : Alike a b) (h : v.eq a = true) :
    w.eq b = true := by
  induction v using induction_below generalizing w a b with
  | h v ih =>
      cases v with
      | scalar s =>
          obtain rfl := hv.scalar
          cases a with
          | scalar t =>
              obtain rfl := ha.scalar
              exact h
          | _ => simp [Value.eq] at h
      | list items =>
          obtain ⟨others, rfl, hitems⟩ := hv.list
          cases a with
          | list items' =>
              obtain ⟨others', rfl, hitems'⟩ := ha.list
              rw [Value.eq, eqItems_iff] at h ⊢
              exact forall₂_transport h hitems hitems' fun c hc _ _ _ hc' hd hcd =>
                (ih.of_mem_list hc).1 hc' hd hcd
          | _ => simp [Value.eq] at h
      | dict entries =>
          obtain ⟨others, rfl, hlength, -⟩ := hv.dict
          cases a with
          | dict entries' =>
              obtain ⟨others', rfl, hlength', hentries'⟩ := ha.dict
              obtain ⟨hdistinct, -⟩ := wellFormed_dict_iff.mp ha.left
              obtain ⟨hdistinct', -⟩ := wellFormed_dict_iff.mp ha.right
              rw [Value.eq, Bool.and_eq_true, beq_iff_eq, eqEntries_iff] at h ⊢
              refine ⟨by omega, fun key d hd => ?_⟩
              obtain ⟨c, hc, hcd⟩ := hv.entry hd
              obtain ⟨e, he, hce⟩ := h.2 key c hc
              obtain ⟨key', hmem, hkey⟩ := (lookup_eq_some_iff hdistinct).mp he
              obtain ⟨f, hf, hef⟩ := hentries' key' e hmem
              exact ⟨f, (lookup_eq_some_iff hdistinct').mpr ⟨key', hf, hkey⟩,
                (ih.of_mem_dict hc).1 hcd hef hce⟩
          | _ => simp [Value.eq] at h

theorem Alike.eq_congr (hv : Alike v w) (ha : Alike a b) : v.eq a = w.eq b := by
  rw [Bool.eq_iff_iff]
  exact ⟨hv.eq_of_eq ha, hv.symm.eq_of_eq ha.symm⟩

theorem Alike.same_congr (hv : Alike v w) (ha : Alike a b) : same v a = same w b := by
  rw [same, same, hv.eq_congr ha, hv.shape.2.2.2.1, ha.shape.2.2.2.1]

/-- A field of values that are alike. -/
theorem AlikeIfAny.member {actual other : Option Value} (h : AlikeIfAny actual other)
    (fold : Scalar → Scalar) (key : Scalar) :
    AlikeIfAny (member fold actual key) (member fold other key) := by
  cases h with
  | none => exact .none
  | @some v w hvw =>
      cases v with
      | scalar s =>
          obtain rfl := hvw.scalar
          exact .none
      | list items =>
          obtain ⟨others, rfl, -⟩ := hvw.list
          exact .none
      | dict entries =>
          obtain ⟨others, rfl, -, hentries⟩ := hvw.dict
          obtain ⟨hdistinct, -⟩ := wellFormed_dict_iff.mp hvw.left
          obtain ⟨hdistinct', -⟩ := wellFormed_dict_iff.mp hvw.right
          change AlikeIfAny (lookup (fold key) entries) (lookup (fold key) others)
          cases ha : lookup (fold key) entries with
          | some a =>
              obtain ⟨key', hmem, hkey⟩ := (lookup_eq_some_iff hdistinct).mp ha
              obtain ⟨b, hb, hab⟩ := hentries key' a hmem
              rw [(lookup_eq_some_iff hdistinct').mpr ⟨key', hb, hkey⟩]
              exact .some hab
          | none =>
              cases hb : lookup (fold key) others with
              | none => exact .none
              | some b =>
                  obtain ⟨key', hmem, hkey⟩ := (lookup_eq_some_iff hdistinct').mp hb
                  obtain ⟨a, ha', -⟩ := hvw.entry hmem
                  rw [(lookup_eq_some_iff hdistinct).mpr ⟨key', ha', hkey⟩] at ha
                  cases ha

/-- Lists that are alike are absent together, or matched item by item. -/
theorem AlikeIfAny.array {actual other : Option Value} (h : AlikeIfAny actual other) :
    Option.Rel (List.Forall₂ Alike) (actual.bind Value.array?) (other.bind Value.array?) := by
  cases h with
  | none => exact .none
  | @some v w hvw =>
      cases v with
      | scalar s =>
          obtain rfl := hvw.scalar
          exact .none
      | list items =>
          obtain ⟨others, rfl, hitems⟩ := hvw.list
          exact .some hitems
      | dict entries =>
          obtain ⟨others, rfl, -, -⟩ := hvw.dict
          exact .none

/-- An argument is accepted by its shape. -/
theorem Alike.operator? (h : Alike v w) (key : Scalar) : operator? key v = operator? key w := by
  obtain ⟨hmapping, hlength, htext, hbool, hnumber⟩ := h.shape
  have harray : v.array?.isSome = w.array?.isSome := by
    have := congrArg Option.isSome hlength
    simpa using this
  have hinteger : LeafOperator.integer? v = LeafOperator.integer? w := by
    cases v with
    | scalar s =>
        obtain rfl := h.scalar
        rfl
    | list items =>
        obtain ⟨others, rfl, -⟩ := h.list
        rfl
    | dict entries =>
        obtain ⟨others, rfl, -, -⟩ := h.dict
        rfl
  have hbranches : (v.array?.any fun branches => !branches.isEmpty) =
      w.array?.any fun branches => !branches.isEmpty := by
    have hsize (x : Option (List Value)) : (x.any fun branches => !branches.isEmpty) =
        (x.map List.length).any fun n => decide (0 < n) := by
      cases x with
      | none => rfl
      | some branches => cases branches <;> rfl
    rw [hsize, hsize, hlength]
  have haccepts (op : Operator) : op.accepts v = op.accepts w := by
    cases op with
    | leaf op =>
        cases op <;>
          simp only [Operator.accepts, LeafOperator.accepts, htext, hbool, hnumber, hinteger]
    | oneOf => exact harray
    | allOf => exact hbranches
    | anyOf => exact hbranches
    | negation => rfl
    | items => simp only [Operator.accepts, harray, hmapping]
  cases key with
  | str s => simp only [Acts.operator?, haccepts]
  | _ => rfl

end Reading

section Leaves

variable (py : Interpreter) {actual other : Option Value} {argument : Value}

/-- A leaf operator takes a scalar. -/
theorem scalar_of_operator? {key : Scalar} {op : LeafOperator}
    (h : Acts.operator? key argument = some (.leaf op)) : ∃ s, argument = .scalar s := by
  have hacc := accepts_of_operator? h
  cases argument with
  | scalar s => exact ⟨s, rfl⟩
  | list items =>
      cases op <;> simp [Operator.accepts, LeafOperator.accepts, Value.text?, Value.isBool,
        Value.number?, LeafOperator.integer?] at hacc
  | dict entries =>
      cases op <;> simp [Operator.accepts, LeafOperator.accepts, Value.text?, Value.isBool,
        Value.number?, LeafOperator.integer?] at hacc

/-- The tests of a type only look at the kind of a value. -/
theorem typeTest_congr (name : String) {v w : Value} (h : Alike v w) :
    (LeafOperator.typeTest name).map (fun test => test v) =
      (LeafOperator.typeTest name).map fun test => test w := by
  cases v with
  | scalar s =>
      obtain rfl := h.scalar
      rfl
  | list items =>
      obtain ⟨others, rfl, -⟩ := h.list
      unfold LeafOperator.typeTest
      split <;> rfl
  | dict entries =>
      obtain ⟨others, rfl, -, -⟩ := h.dict
      unfold LeafOperator.typeTest
      split <;> rfl

theorem containsValue_congr (s : Scalar) {v w : Value} (h : Alike v w) :
    LeafOperator.containsValue (.scalar s) v = LeafOperator.containsValue (.scalar s) w := by
  cases v with
  | scalar t =>
      obtain rfl := h.scalar
      rfl
  | list items =>
      obtain ⟨others, rfl, hitems⟩ := h.list
      have hs : Alike (.scalar s) (.scalar s) := .refl trivial
      simp only [LeafOperator.containsValue, Value.array?]
      clear h
      induction hitems with
      | nil => rfl
      | cons hab _ ih => rw [List.any_cons, List.any_cons, hab.eq_congr hs, ih]
  | dict entries =>
      obtain ⟨others, rfl, -, -⟩ := h.dict
      rfl

theorem countOp_congr (holds : ℤ → ℤ → Bool) {v w : Value}
    (h : v.array?.map List.length = w.array?.map List.length) :
    LeafOperator.countOp holds argument v = LeafOperator.countOp holds argument w := by
  unfold LeafOperator.countOp
  cases LeafOperator.integer? argument <;> cases hv : v.array? <;> cases hw : w.array? <;>
    simp_all

theorem holdsOf_congr (op : LeafOperator) (s : Scalar) {v w : Value} (h : Alike v w) :
    op.holdsOf py (.scalar s) v = op.holdsOf py (.scalar s) w := by
  obtain ⟨-, hlength, htext, -, hnumber⟩ := h.shape
  cases op with
  | type =>
      have htest (name : String) := typeTest_congr name h
      simp only [LeafOperator.holdsOf]
      cases (Value.scalar s).text? with
      | none => rfl
      | some name => rw [Option.bind_some, htest]
  | contains => simp only [LeafOperator.holdsOf, containsValue_congr s h]
  | count => simp only [LeafOperator.holdsOf, countOp_congr _ hlength]
  | countGte => simp only [LeafOperator.holdsOf, countOp_congr _ hlength]
  | countLte => simp only [LeafOperator.holdsOf, countOp_congr _ hlength]
  | _ =>
      simp only [LeafOperator.holdsOf, LeafOperator.matchesValue, LeafOperator.onTexts,
        LeafOperator.compare, htext, hnumber]

theorem holds_congr (op : LeafOperator) (s : Scalar) (h : AlikeIfAny actual other) :
    op.holds py (.scalar s) actual = op.holds py (.scalar s) other := by
  cases h with
  | none => rfl
  | some hvw => exact holdsOf_congr py op s hvw

theorem AlikeIfAny.isSome (h : AlikeIfAny actual other) : actual.isSome = other.isSome := by
  cases h <;> rfl

theorem leaf_congr (op : LeafOperator) (s : Scalar) (h : AlikeIfAny actual other) :
    op.satisfies py (.scalar s) actual = op.satisfies py (.scalar s) other ∧
      op.raises py (.scalar s) actual = op.raises py (.scalar s) other := by
  unfold LeafOperator.satisfies LeafOperator.raises
  rw [holds_congr py op s h, h.isSome]
  exact ⟨rfl, rfl⟩

end Leaves

section Trees

variable (py : Interpreter)

/-- All keys are text, at any depth. -/
abbrev TextKeys : Value → Prop := WellFormed (fun _ => True) IsName

/-- The readings of the tree and of any tree alike agree on values alike; where the path
is empty for one of them only, the keys have to be text. -/
def Congruent (tree : Value) : Prop :=
  ∀ tree', Alike tree tree' → ∀ (fold : Scalar → Scalar) (actual other : Option Value),
    AlikeIfAny actual other →
    satisfies py fold tree actual = satisfies py fold tree' other ∧
      ∀ rooted rooted' : Bool, rooted = rooted' ∨ TextKeys tree →
        stumbles py fold tree actual rooted = stumbles py fold tree' other rooted'

variable {py} {fold : Scalar → Scalar} {actual other : Option Value}

theorem Congruent.map {entries entries' : List (Scalar × Value)}
    (h : Congruent py (.dict entries)) (halike : Alike (.dict entries) (.dict entries'))
    (hactual : AlikeIfAny actual other) :
    satisfiesMap py fold entries actual = satisfiesMap py fold entries' other ∧
      ∀ rooted rooted' : Bool, rooted = rooted' ∨ TextKeys (.dict entries) →
        stumblesMap py fold entries actual rooted = stumblesMap py fold entries' other rooted' := by
  simpa only [satisfies, stumbles] using h _ halike fold actual other hactual

theorem branches_congr (fold : Scalar → Scalar) {branches branches' : List Value}
    (h : ∀ branch ∈ branches, Congruent py branch)
    (halike : List.Forall₂ Alike branches branches') (hactual : AlikeIfAny actual other) :
    satisfiesAll py fold branches actual = satisfiesAll py fold branches' other ∧
      satisfiesAny py fold branches actual = satisfiesAny py fold branches' other ∧
      ∀ rooted rooted' : Bool, (rooted = rooted' ∨ ∀ branch ∈ branches, TextKeys branch) →
        stumblesBranches py fold branches actual rooted =
          stumblesBranches py fold branches' other rooted' := by
  induction halike with
  | nil => exact ⟨rfl, rfl, fun _ _ _ => rfl⟩
  | @cons a b rest rest' hab hrest ih =>
      obtain ⟨hsat, hstumble⟩ := h a (by simp) b hab fold actual other hactual
      obtain ⟨hall, hany, hbranches⟩ := ih fun c hc => h c (by simp [hc])
      refine ⟨?_, ?_, fun rooted rooted' htext => ?_⟩
      · rw [satisfiesAll, satisfiesAll, hsat, hall]
      · rw [satisfiesAny, satisfiesAny, hsat, hany]
      · rw [stumblesBranches, stumblesBranches,
          hstumble rooted rooted' (htext.imp_right fun ht => ht a (by simp)),
          hbranches rooted rooted' (htext.imp_right fun ht c hc => ht c (by simp [hc]))]

theorem options_congr (fold : Scalar → Scalar) {options options' : List Value}
    (h : ∀ option ∈ options, Congruent py option)
    (halike : List.Forall₂ Alike options options') (hactual : AlikeIfAny actual other) :
    satisfiesOption py fold options actual = satisfiesOption py fold options' other ∧
      stumblesOption py fold options actual = stumblesOption py fold options' other := by
  induction halike with
  | nil => exact ⟨rfl, rfl⟩
  | @cons a b rest rest' hab hrest ih =>
      obtain ⟨hsat, hstumble⟩ := ih fun c hc => h c (by simp [hc])
      have hsame : (actual.any fun v => same v a) = other.any fun v => same v b := by
        cases hactual with
        | none => rfl
        | some hvw => exact hvw.same_congr hab
      cases a with
      | dict entries =>
          obtain ⟨entries', rfl, -⟩ := hab.dict
          obtain ⟨hmap, hmap'⟩ := (h _ (by simp)).map hab hactual
          rw [satisfiesOption, satisfiesOption, stumblesOption, stumblesOption, hmap, hsat,
            hstumble, hmap' false false (.inl rfl)]
          exact ⟨rfl, rfl⟩
      | list items =>
          obtain ⟨items', rfl, -⟩ := hab.list
          simp only [satisfiesOption, stumblesOption, hsame, hsat, hstumble, and_self]
      | scalar s =>
          obtain rfl := hab.scalar
          simp only [satisfiesOption, stumblesOption, hsame, hsat, hstumble, and_self]

theorem positions_congr {assertions assertions' elements elements' : List Value}
    (h : ∀ assertion ∈ assertions, Congruent py assertion)
    (halike : List.Forall₂ Alike assertions assertions')
    (helements : List.Forall₂ Alike elements elements') :
    satisfiesPositions py assertions elements = satisfiesPositions py assertions' elements' ∧
      stumblesPositions py assertions elements = stumblesPositions py assertions' elements' := by
  induction halike generalizing elements elements' with
  | nil => cases helements <;> exact ⟨rfl, rfl⟩
  | @cons a b rest rest' hab hrest ih =>
      cases helements with
      | nil => exact ⟨rfl, rfl⟩
      | cons hvw hothers =>
          obtain ⟨hsat, hstumble⟩ := h a (by simp) b hab id _ _ (.some hvw)
          obtain ⟨hpos, hpos'⟩ := ih (fun c hc => h c (by simp [hc])) hothers
          rw [satisfiesPositions, satisfiesPositions, stumblesPositions, stumblesPositions, hsat,
            hpos, hpos', hstumble true true (.inl rfl)]
          exact ⟨rfl, rfl⟩

/-- A list of assertions, under `items` or by itself. -/
theorem list_congr {assertions assertions' : List Value}
    (h : ∀ assertion ∈ assertions, Congruent py assertion)
    (halike : List.Forall₂ Alike assertions assertions') (hactual : AlikeIfAny actual other) :
    (((actual.bind Value.array?).any fun elements =>
        assertions.length ≤ elements.length && satisfiesPositions py assertions elements) =
      (other.bind Value.array?).any fun elements =>
        assertions'.length ≤ elements.length && satisfiesPositions py assertions' elements) ∧
    (((actual.bind Value.array?).any fun elements =>
        assertions.length ≤ elements.length && stumblesPositions py assertions elements) =
      (other.bind Value.array?).any fun elements =>
        assertions'.length ≤ elements.length && stumblesPositions py assertions' elements) := by
  have harray := hactual.array
  generalize actual.bind Value.array? = found at harray ⊢
  generalize other.bind Value.array? = found' at harray ⊢
  cases harray with
  | none => exact ⟨rfl, rfl⟩
  | some helements =>
      obtain ⟨hsat, hstumble⟩ := positions_congr h halike helements
      simp only [Option.any_some, hsat, hstumble, halike.length_eq, helements.length_eq, and_self]

/-- A mapping under `items`. -/
theorem elements_congr {entries entries' : List (Scalar × Value)}
    (h : Congruent py (.dict entries)) (halike : Alike (.dict entries) (.dict entries'))
    (hactual : AlikeIfAny actual other) :
    (((actual.bind Value.array?).any fun elements =>
        elements.all fun element => satisfiesMap py id entries (some element)) =
      (other.bind Value.array?).any fun elements =>
        elements.all fun element => satisfiesMap py id entries' (some element)) ∧
    (((actual.bind Value.array?).any fun elements =>
        elements.any fun element => stumblesMap py id entries (some element) true) =
      (other.bind Value.array?).any fun elements =>
        elements.any fun element => stumblesMap py id entries' (some element) true) := by
  have harray := hactual.array
  generalize actual.bind Value.array? = found at harray ⊢
  generalize other.bind Value.array? = found' at harray ⊢
  cases harray with
  | none => exact ⟨rfl, rfl⟩
  | some helements =>
      simp only [Option.any_some]
      induction helements with
      | nil => exact ⟨rfl, rfl⟩
      | cons hvw _ ih =>
          obtain ⟨hmap, hmap'⟩ := h.map halike (.some hvw)
          rw [List.all_cons, List.all_cons, List.any_cons, List.any_cons, hmap,
            hmap' true true (.inl rfl), ih.1, ih.2]
          exact ⟨rfl, rfl⟩

/-- One entry against the entry it is matched with. -/
theorem entry_congr (fold : Scalar → Scalar) (key : Scalar) {a b : Value} (ha : Congruent py a)
    (hbelow : Below (Congruent py) a) (hab : Alike a b) (hactual : AlikeIfAny actual other) :
    satisfiesMap py fold [(key, a)] actual = satisfiesMap py fold [(key, b)] other ∧
      ∀ rooted rooted' : Bool, (rooted = rooted' ∨ IsName key ∧ TextKeys a) →
        stumblesMap py fold [(key, a)] actual rooted =
          stumblesMap py fold [(key, b)] other rooted' := by
  have hkey := hab.operator? key
  unfold satisfiesMap stumblesMap
  cases clause key a with
  | leaf op hop =>
      obtain ⟨s, rfl⟩ := scalar_of_operator? hop
      obtain rfl := hab.scalar
      obtain ⟨hsat, hraise⟩ := leaf_congr py op s hactual
      simp only [hop, hsat, hraise, satisfiesMap, stumblesMap, implies_true,
        and_self]
  | oneOf options hop =>
      obtain ⟨options', rfl, halike⟩ := hab.list
      rw [hop] at hkey
      obtain ⟨hsat, hstumble⟩ := options_congr fold
        (fun o ho => (hbelow.of_mem_list ho).1) halike hactual
      simp only [hop, ← hkey, hsat, hstumble, hactual.isSome, satisfiesMap, stumblesMap,
        implies_true, and_self]
  | allOf branches hop =>
      obtain ⟨branches', rfl, halike⟩ := hab.list
      rw [hop] at hkey
      obtain ⟨hall, -, hstumble⟩ := branches_congr fold
        (fun o ho => (hbelow.of_mem_list ho).1) halike hactual
      simp only [hop, ← hkey, hall, satisfiesMap, stumblesMap, true_and]
      intro rooted rooted' htext
      rw [hstumble rooted rooted' (htext.imp_right fun ht => wellFormed_list_iff.mp ht.2)]
  | anyOf branches hop =>
      obtain ⟨branches', rfl, halike⟩ := hab.list
      rw [hop] at hkey
      obtain ⟨-, hany, hstumble⟩ := branches_congr fold
        (fun o ho => (hbelow.of_mem_list ho).1) halike hactual
      simp only [hop, ← hkey, hany, satisfiesMap, stumblesMap, true_and]
      intro rooted rooted' htext
      rw [hstumble rooted rooted' (htext.imp_right fun ht => wellFormed_list_iff.mp ht.2)]
  | negation hop =>
      rw [hop] at hkey
      obtain ⟨hsat, hstumble⟩ := ha b hab fold actual other hactual
      simp only [hop, ← hkey, hsat, satisfiesMap, stumblesMap, true_and]
      intro rooted rooted' htext
      rw [hstumble rooted rooted' (htext.imp_right fun ht => ht.2)]
  | positions assertions hop =>
      obtain ⟨assertions', rfl, halike⟩ := hab.list
      rw [hop] at hkey
      obtain ⟨hsat, hstumble⟩ := list_congr (fun o ho => (hbelow.of_mem_list ho).1) halike hactual
      simp only [hop, ← hkey, hsat, hstumble, satisfiesMap, stumblesMap, implies_true,
        and_self]
  | elements entries hop =>
      obtain ⟨entries', rfl, -⟩ := hab.dict
      rw [hop] at hkey
      obtain ⟨hsat, hstumble⟩ := elements_congr ha hab hactual
      simp only [hop, ← hkey, hsat, hstumble, satisfiesMap, stumblesMap, implies_true,
        and_self]
  | field hop =>
      rw [hop] at hkey
      obtain ⟨hsat, hstumble⟩ := ha b hab id _ _ (hactual.member fold key)
      simp only [hop, ← hkey, hsat, satisfiesMap, stumblesMap, true_and]
      intro rooted rooted' htext
      rcases htext with rfl | ⟨⟨name, rfl⟩, htext⟩
      · rw [hstumble _ _ (.inl rfl)]
      · rw [hstumble _ (rooted' || (Scalar.str name).truthy) (.inr htext)]
        simp [Value.text?]

theorem congruent (tree : Value) : Congruent py tree := by
  induction tree using induction_below with
  | h tree hbelow =>
      intro tree' halike fold actual other hactual
      cases tree with
      | scalar s =>
          obtain rfl := halike.scalar
          refine ⟨?_, fun _ _ _ => rfl⟩
          rw [satisfies, satisfies]
          cases hactual with
          | none => rfl
          | some hvw => exact hvw.same_congr halike
      | list items =>
          obtain ⟨items', rfl, hitems⟩ := halike.list
          obtain ⟨hsat, hstumble⟩ :=
            list_congr (fun o ho => (hbelow.of_mem_list ho).1) hitems hactual
          rw [satisfies, satisfies, hsat]
          refine ⟨rfl, fun _ _ _ => ?_⟩
          rw [stumbles, stumbles, hstumble]
      | dict entries =>
          obtain ⟨entries', rfl, -, hentries⟩ := halike.dict
          have hentry (key : Scalar) (a b : Value) (ha : (key, a) ∈ entries) (hab : Alike a b) :=
            entry_congr fold key (hbelow.of_mem_dict ha).1 (hbelow.of_mem_dict ha).2 hab hactual
          constructor
          · rw [satisfies, satisfies, satisfiesMap_eq_all, satisfiesMap_eq_all, Bool.eq_iff_iff,
              List.all_eq_true, List.all_eq_true]
            constructor
            · rintro hall ⟨key, b⟩ hb
              obtain ⟨a, ha, hab⟩ := halike.entry hb
              rw [← (hentry key a b ha hab).1]
              exact hall (key, a) ha
            · rintro hall ⟨key, a⟩ ha
              obtain ⟨b, hb, hab⟩ := hentries key a ha
              rw [(hentry key a b ha hab).1]
              exact hall (key, b) hb
          · intro rooted rooted' htext
            have htext' (key : Scalar) (a : Value) (ha : (key, a) ∈ entries) :
                rooted = rooted' ∨ IsName key ∧ TextKeys a :=
              htext.imp_right fun ht => (wellFormed_dict_iff.mp ht).2 key a ha
            rw [stumbles, stumbles, stumblesMap_eq_any, stumblesMap_eq_any, Bool.eq_iff_iff,
              List.any_eq_true, List.any_eq_true]
            constructor
            · rintro ⟨⟨key, a⟩, ha, hstumble⟩
              obtain ⟨b, hb, hab⟩ := hentries key a ha
              rw [(hentry key a b ha hab).2 rooted rooted' (htext' key a ha)] at hstumble
              exact ⟨(key, b), hb, hstumble⟩
            · rintro ⟨⟨key, b⟩, hb, hstumble⟩
              obtain ⟨a, ha, hab⟩ := halike.entry hb
              rw [← (hentry key a b ha hab).2 rooted rooted' (htext' key a ha)] at hstumble
              exact ⟨(key, a), ha, hstumble⟩

/-- The verdict depends neither on the order of keys nor, where the keys are text, on the
path. -/
theorem verdict_congr {tree tree' : Value} (htree : Alike tree tree')
    (hactual : AlikeIfAny actual other) {path path' : Scalar}
    (hpath : path = path' ∨ TextKeys tree) :
    verdict py fold tree actual path = verdict py fold tree' other path' := by
  have hcongruent : Congruent py tree := congruent tree
  obtain ⟨hsat, hstumble⟩ := hcongruent tree' htree fold actual other hactual
  rw [verdict_eq, verdict_eq, hsat, hstumble _ path'.truthy (hpath.imp_left fun h => h ▸ rfl)]

/-- Wherever an evaluation returns, it returns the same verdict for every path. -/
theorem verdict_path {tree : Value} {path path' : Scalar} {ok ok' : Bool}
    (h : verdict py fold tree actual path = some ok)
    (h' : verdict py fold tree actual path' = some ok') : ok = ok' :=
  ((verdict_eq_some_iff py).mp h).2.symm.trans ((verdict_eq_some_iff py).mp h').2

end Trees

section Laws

/-- Values without operators form a preorder. The verdict on a tree depends neither on the
order of keys nor on the path, a mapping is the conjunction of its keys, and `not`,
`all_of` and `any_of` are the connectives, with an evaluation that raises passed on. -/
theorem assertion_tree_laws (py : Interpreter) :
    (∀ (a : Value) (path : Scalar), a.IsJson → OperatorFree a →
      verdict py id a (some a) path = some true) ∧
    (∀ (a b c : Value) (path : Scalar), a.IsJson → b.IsJson → c.IsJson →
      OperatorFree a → OperatorFree b → OperatorFree c →
      verdict py id a (some b) path = some true → verdict py id b (some c) path = some true →
      verdict py id a (some c) path = some true) ∧
    (∀ (tree tree' : Value) (actual other : Option Value) (path path' : Scalar),
      Alike tree tree' → AlikeIfAny actual other → path = path' ∨ TextKeys tree →
      verdict py id tree actual path = verdict py id tree' other path') ∧
    (∀ (tree : Value) (actual : Option Value) (path path' : Scalar) (ok ok' : Bool),
      verdict py id tree actual path = some ok → verdict py id tree actual path' = some ok' →
      ok = ok') ∧
    (∀ (entries : List (Scalar × Value)) (actual : Option Value) (path : Scalar),
      verdict py id (.dict entries) actual path = some true ↔
        ∀ entry ∈ entries, verdict py id (.dict [entry]) actual path = some true) ∧
    (∀ (argument : Value) (actual : Option Value) (path : Scalar),
      verdict py id (.object [("not", argument)]) actual path =
        (verdict py id argument actual path).map fun ok => !ok) ∧
    (∀ (branches : List Value) (actual : Option Value) (path : Scalar), branches ≠ [] →
      verdict py id (.object [("all_of", .list branches)]) actual path =
        (branches.mapM fun branch => verdict py id branch actual path).map
          fun oks => oks.all id) ∧
    ∀ (branches : List Value) (actual : Option Value) (path : Scalar), branches ≠ [] →
      verdict py id (.object [("any_of", .list branches)]) actual path =
        (branches.mapM fun branch => verdict py id branch actual path).map
          fun oks => oks.any id := by
  refine ⟨?_, ?_, ?_, ?_, ?_, ?_, ?_, ?_⟩
  · intro a path hjson hfree
    exact (verdict_eq_some_iff py).mpr
      ⟨stumbles_operatorFree py hjson hfree _ _, satisfies_refl py hjson hfree⟩
  · intro a b c path ha hb _ hfreeA hfreeB _ hab hbc
    have hab' := ((verdict_eq_some_iff py).mp hab).2
    have hbc' := ((verdict_eq_some_iff py).mp hbc).2
    exact (verdict_eq_some_iff py).mpr ⟨stumbles_operatorFree py ha hfreeA _ _,
      satisfies_trans py hb hfreeA hfreeB hab' hbc'⟩
  · intro tree tree' actual other path path' htree hactual hpath
    exact verdict_congr htree hactual hpath
  · intro tree actual path path' ok ok' h h'
    exact verdict_path h h'
  · intro entries actual path
    exact verdict_dict_iff py entries path
  · intro argument actual path
    exact verdict_not py id actual argument path
  · intro branches actual path h
    exact verdict_allOf py id actual h path
  · intro branches actual path h
    exact verdict_anyOf py id actual h path

/-- A task as a plain value, with its keys in two orders. -/
def taskValue : Value := .object [("id", .str "1"), ("parts", .list [.int 2])]

def taskValueReversed : Value := .object [("parts", .list [.int 2]), ("id", .str "1")]

theorem isJson_taskValue : taskValue.IsJson ∧ OperatorFree taskValue := by
  constructor
  · simp [taskValue, Value.object, WellFormed, WellFormedEntries, WellFormedItems, IsName,
      Scalar.IsJson, Scalar.eq, Scalar.number?]
  · exact ⟨rfl, trivial, rfl, ⟨trivial, trivial⟩, trivial⟩

theorem assertion_tree_laws_taskValue :
    verdict .plain id taskValue (some taskValue) (.str "") = some true ∧
      verdict .plain id taskValue (some taskValue) (.str "body") =
        verdict .plain id taskValueReversed (some taskValueReversed) (.str "") := by
  obtain ⟨hjson, hfree⟩ := isJson_taskValue
  have halike : Alike taskValue taskValueReversed := by
    refine ⟨hjson.distinct, ?_, ?_⟩
    · simp [taskValueReversed, Value.object, WellFormed, WellFormedEntries, WellFormedItems,
        Scalar.eq, Scalar.number?]
    · refine congrArg Json.object (funext fun key => ?_)
      by_cases hid : Scalar.str "id" = key
      · subst hid
        simp [jsonFields]
      · simp [jsonFields, hid]
  have hlaws := assertion_tree_laws .plain
  exact ⟨hlaws.1 taskValue (.str "") hjson hfree,
    hlaws.2.2.1 taskValue taskValueReversed _ _ _ _ halike (.some halike)
      (.inr (hjson.mono (fun _ _ => trivial) fun _ hname => hname))⟩

end Laws

end A2aItk.Acts
