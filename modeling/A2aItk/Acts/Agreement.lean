import A2aItk.Acts.Satisfaction

/-!
# The evaluator agrees with the readings

`evaluate` raises exactly when the tree stumbles. Otherwise it reports no failure
exactly when the value satisfies the tree, and then it counts a check exactly when
the tree compares something.
-/

namespace A2aItk.Acts

open Python

/-- The result is what the readings say. -/
structure Reports (holds compares : Bool) (result : AssertionResult) : Prop where
  ok : result.ok = holds
  checks : holds = true → decide (0 < result.checks) = compares

open AssertionResult

namespace Reports

variable {holds holds' compares compares' : Bool} {a b : AssertionResult}

theorem pass : Reports true false AssertionResult.pass := ⟨rfl, fun _ => rfl⟩

theorem counted : Reports true true (AssertionResult.counted 1) := ⟨rfl, fun _ => rfl⟩

theorem fail (compares : Bool) {path : Scalar} {operator : String} {expected : Value}
    {actual : Option Value} {message : String} :
    Reports false compares (AssertionResult.fail path operator expected actual message) :=
  ⟨rfl, fun h => absurd h (by decide)⟩

theorem add (ha : Reports holds compares a) (hb : Reports holds' compares' b) :
    Reports (holds && holds') (compares || compares') (a + b) where
  ok := by rw [ok_add, ha.ok, hb.ok]
  checks h := by
    obtain ⟨hholds, hholds'⟩ := Bool.and_eq_true_iff.mp h
    rw [← ha.checks hholds, ← hb.checks hholds', checks_add]
    simp only [← Bool.decide_or, decide_eq_decide]
    omega

end Reports

theorem ends_conjoin {raises raises' holds holds' compares compares' : Bool}
    {x y : Except Exception AssertionResult} (hx : Ends raises (Reports holds compares) x)
    (hy : Ends raises' (Reports holds' compares') y) :
    Ends (raises || raises') (Reports (holds && holds') (compares || compares'))
      (conjoin x y) := by
  apply hx.bind
  intro a ha
  exact hy.map fun b hb => ha.add hb

section Leaves

variable (py : Interpreter) {argument : Value} {actual : Option Value} {path : Scalar}

theorem reports_verdictOf (op : Operator) (holds : Bool) :
    Reports holds true (verdictOf py op argument actual path holds) := by
  cases holds with
  | true => exact .counted
  | false => exact .fail true

theorem reports_evaluateExact (expected : Value) :
    Reports (actual.any fun v => same v expected) true
      (evaluateExact py expected actual path) := by
  cases actual with
  | none => exact .fail true
  | some v =>
      simp only [evaluateExact, Option.any_some]
      cases same v expected with
      | true => exact .counted
      | false => exact .fail true

theorem ends_applyLeaf (op : LeafOperator) :
    Ends (op.raises py argument actual) (Reports (op.satisfies py argument actual) true)
      (applyLeaf py op argument actual path) := by
  unfold applyLeaf LeafOperator.satisfies LeafOperator.raises
  cases hmissing : (actual.isSome || op.toleratesMissing) with
  | false =>
      have hguard : (actual.isNone && !op.toleratesMissing) = true := by
        cases actual <;> simp_all
      rw [if_pos hguard]
      exact .ok (.fail true)
  | true =>
      have hguard : (actual.isNone && !op.toleratesMissing) = false := by
        cases actual <;> simp_all
      rw [if_neg (by simp [hguard])]
      cases op.holds py argument actual with
      | error e => exact rfl
      | ok b => exact .ok (reports_verdictOf py (.leaf op) b)

end Leaves

section Joins

variable (py : Interpreter)

theorem truthy_str {s : String} (h : s.toList ≠ []) : (Scalar.str s).truthy = true := by
  simp only [Scalar.truthy, decide_eq_true_eq]
  rintro rfl
  exact h rfl

theorem truthy_position (i : ℕ) : (position i).truthy = true := by
  apply truthy_str
  simp

theorem ends_join (path key : Scalar) :
    Ends (path.truthy && !(Value.scalar key).text?.isSome)
      (fun joined => joined.truthy = (path.truthy || key.truthy)) (join py path key) := by
  unfold join
  cases hpath : path.truthy with
  | false => exact .ok (by simp)
  | true =>
      cases key with
      | str p =>
          refine ⟨by simp [Value.text?], truthy_str ?_⟩
          split
          · rename_i hp
            obtain ⟨rest, hrest⟩ := List.isPrefixOf_iff_prefix.mp hp
            rw [String.toList_append, ← hrest]
            simp
          · simp
      | _ => exact rfl

theorem ends_join_position (path : Scalar) (i : ℕ) :
    Ends false (fun joined => joined.truthy = true) (join py path (position i)) := by
  have h := ends_join py path (position i)
  rw [truthy_position, Bool.or_true] at h
  simpa [position, Value.text?] using h

end Joins

section Agreement

variable (py : Interpreter)

/-- The evaluation of the tree is as the readings say, on every value. -/
def Agrees (assertion : Value) : Prop :=
  ∀ (fold : Scalar → Scalar) (actual : Option Value) (path : Scalar),
    Ends (stumbles py fold assertion actual path.truthy)
      (Reports (satisfies py fold assertion actual) (compares fold assertion actual))
      (evaluate py fold assertion actual path)

variable {py}

theorem Agrees.map {entries : List (Scalar × Value)} (h : Agrees py (.dict entries))
    (fold : Scalar → Scalar) (actual : Option Value) (path : Scalar) :
    Ends (stumblesMap py fold entries actual path.truthy)
      (Reports (satisfiesMap py fold entries actual) (comparesMap fold entries actual))
      (evaluateMap py fold entries actual path) := by
  simpa only [evaluate, satisfies, stumbles, compares] using h fold actual path

/-- What the attempts of a combinator come to. -/
structure Attempts (all any compares : Bool) (attempts : List AssertionResult) : Prop where
  total : Reports all compares (AssertionResult.total attempts)
  any : attempts.any AssertionResult.ok = any

theorem ends_evaluateBranches {branches : List Value} (h : ∀ branch ∈ branches, Agrees py branch)
    (fold : Scalar → Scalar) (actual : Option Value) (path : Scalar) :
    Ends (stumblesBranches py fold branches actual path.truthy)
      (Attempts (satisfiesAll py fold branches actual) (satisfiesAny py fold branches actual)
        (comparesBranches fold branches actual))
      (evaluateBranches py fold branches actual path) := by
  induction branches with
  | nil => exact .ok ⟨.pass, rfl⟩
  | cons branch rest ih =>
      rw [evaluateBranches, stumblesBranches, satisfiesAll, satisfiesAny, comparesBranches]
      apply (h branch (by simp) fold actual path).bind
      intro attempt hattempt
      apply (ih fun b hb => h b (by simp [hb])).map
      intro attempts hattempts
      exact ⟨hattempt.add hattempts.total, by simp [hattempt.ok, hattempts.any]⟩

theorem ends_evaluateOptions {options : List Value}
    (h : ∀ entries, Value.dict entries ∈ options → Agrees py (.dict entries))
    (fold : Scalar → Scalar) (actual : Option Value) :
    Ends (stumblesOption py fold options actual)
      (fun found => found = satisfiesOption py fold options actual)
      (evaluateOptions py fold options actual) := by
  induction options with
  | nil => exact .ok rfl
  | cons option rest ih =>
      have hrest := ih fun entries hentries => h entries (by simp [hentries])
      have hvalue : Ends
          (!(actual.any fun v => same v option) && stumblesOption py fold rest actual)
          (fun found => found = ((actual.any fun v => same v option) ||
            satisfiesOption py fold rest actual))
          (if actual.any fun v => same v option then pure true
            else evaluateOptions py fold rest actual) := by
        cases hsame : actual.any fun v => same v option with
        | true => exact .ok rfl
        | false => simpa using hrest
      cases option with
      | dict entries =>
          rw [evaluateOptions, stumblesOption, satisfiesOption]
          apply ((h entries (by simp)).map fold actual (.str "")).bind
          intro attempt hattempt
          rw [hattempt.ok]
          cases satisfiesMap py fold entries actual with
          | true => exact .ok rfl
          | false => simpa using hrest
      | list items => simpa only [evaluateOptions, stumblesOption, satisfiesOption] using hvalue
      | scalar s => simpa only [evaluateOptions, stumblesOption, satisfiesOption] using hvalue

theorem ends_evaluatePositional {assertions : List Value}
    (h : ∀ assertion ∈ assertions, Agrees py assertion) (elements : List Value) (i : ℕ)
    (path : Scalar) :
    Ends (stumblesPositions py assertions elements)
      (Reports (satisfiesPositions py assertions elements)
        (comparesPositions assertions elements))
      (evaluatePositional py assertions elements i path) := by
  induction assertions generalizing elements i with
  | nil => cases elements <;> exact .ok .pass
  | cons assertion rest ih =>
      cases elements with
      | nil => exact .ok .pass
      | cons element others =>
          rw [evaluatePositional, stumblesPositions, satisfiesPositions, comparesPositions]
          have hrest := ih (fun a ha => h a (by simp [ha])) others (i + 1)
          refine ends_conjoin ?_ hrest
          apply (ends_join_position py path i).bind
          intro joined hjoined
          have helement := h assertion (by simp) id (some element) joined
          rwa [hjoined] at helement

/-- A list of assertions, under `items` or by itself. -/
theorem ends_elementsFor {assertions : List Value}
    (h : ∀ assertion ∈ assertions, Agrees py assertion) (actual : Option Value)
    (path : Scalar) :
    Ends
      ((actual.bind Value.array?).any fun elements =>
        assertions.length ≤ elements.length && stumblesPositions py assertions elements)
      (Reports
        ((actual.bind Value.array?).any fun elements =>
          assertions.length ≤ elements.length && satisfiesPositions py assertions elements)
        (comparesPositions assertions ((actual.bind Value.array?).getD [])))
      (match elementsFor py assertions actual path with
        | .inl failure => pure failure
        | .inr elements => evaluatePositional py assertions elements 0 path) := by
  unfold elementsFor
  cases harray : actual.bind Value.array? with
  | none => exact .ok (.fail _)
  | some elements =>
      by_cases hlen : elements.length < assertions.length
      · have hnot : ¬assertions.length ≤ elements.length := by omega
        simp only [if_pos hlen, Option.any_some, hnot, decide_false, Bool.false_and]
        exact .ok (.fail _)
      · have hle : assertions.length ≤ elements.length := by omega
        simp only [if_neg hlen, Option.any_some, hle, decide_true, Bool.true_and,
          Option.getD_some]
        exact ends_evaluatePositional h elements 0 path

/-- A mapping under `items`. -/
theorem ends_mapM_elements {entries : List (Scalar × Value)} (h : Agrees py (.dict entries))
    (elements : List Value) (i : ℕ) (path : Scalar) :
    Ends (elements.any fun element => stumblesMap py id entries (some element) true)
      (fun results => Reports
        (elements.all fun element => satisfiesMap py id entries (some element))
        (elements.any fun element => comparesMap id entries (some element))
        (total results))
      ((elements.zipIdx i).mapM fun element => do
        evaluateMap py id entries (some element.1) (← join py path (position element.2))) := by
  induction elements generalizing i with
  | nil => exact .ok .pass
  | cons element rest ih =>
      rw [List.zipIdx_cons, List.mapM_cons, List.any_cons, List.all_cons, List.any_cons]
      have hhead : Ends (stumblesMap py id entries (some element) true)
          (Reports (satisfiesMap py id entries (some element))
            (comparesMap id entries (some element)))
          (do evaluateMap py id entries (some element) (← join py path (position i))) := by
        apply (ends_join_position py path i).bind
        intro joined hjoined
        have hmap := h.map id (some element) joined
        rwa [hjoined] at hmap
      apply hhead.bind
      intro result hresult
      exact (ih (i + 1)).map fun results hresults => hresult.add hresults

theorem agrees_of_mem {items : List Value} (hbelow : Value.Below (Agrees py) (.list items)) :
    ∀ v ∈ items, Agrees py v :=
  fun _ hv => (hbelow.of_mem_list hv).1

/-- One entry after the other: an operator, or a field with the subtree below it. -/
theorem ends_evaluateMap {node : List (Scalar × Value)}
    (h : ∀ key argument, (key, argument) ∈ node →
      Agrees py argument ∧ Value.Below (Agrees py) argument)
    (fold : Scalar → Scalar) (actual : Option Value) (path : Scalar) :
    Ends (stumblesMap py fold node actual path.truthy)
      (Reports (satisfiesMap py fold node actual) (comparesMap fold node actual))
      (evaluateMap py fold node actual path) := by
  induction node with
  | nil => exact .ok .pass
  | cons entry rest ih =>
      obtain ⟨key, argument⟩ := entry
      obtain ⟨hagrees, hbelow⟩ := h key argument (by simp)
      have hothers := ih fun k a ha => h k a (by simp [ha])
      unfold evaluateMap stumblesMap satisfiesMap comparesMap
      refine ends_conjoin ?_ hothers
      cases clause key argument with
      | leaf op hop =>
          simp only [hop]
          exact ends_applyLeaf py op
      | oneOf options hop =>
          simp only [hop]
          cases actual with
          | none => exact .ok (.fail true)
          | some v =>
              simp only [Option.isNone_some, Option.isSome_some, Bool.true_and]
              have hoptions := ends_evaluateOptions
                (fun entries hentries => agrees_of_mem hbelow _ hentries) fold (some v)
              apply hoptions.map
              intro found hfound
              rw [hfound]
              exact reports_verdictOf py .oneOf _
      | allOf branches hop =>
          simp only [hop]
          apply (ends_evaluateBranches (agrees_of_mem hbelow) fold actual path).map
          exact fun attempts hattempts => hattempts.total
      | anyOf branches hop =>
          simp only [hop]
          apply (ends_evaluateBranches (agrees_of_mem hbelow) fold actual path).map
          intro attempts hattempts
          rw [anyOfResult, hattempts.any]
          cases satisfiesAny py fold branches actual with
          | true => exact .counted
          | false => exact .fail true
      | negation hop =>
          simp only [hop]
          apply (hagrees fold actual path).map
          intro attempt hattempt
          rw [negationResult, hattempt.ok]
          cases satisfies py fold argument actual with
          | true => exact .fail true
          | false => exact .counted
      | positions assertions hop =>
          simp only [hop]
          exact ends_elementsFor (agrees_of_mem hbelow) actual path
      | elements entries hop =>
          simp only [hop]
          cases actual.bind Value.array? with
          | none => exact .ok (.fail _)
          | some elements =>
              simp only [Option.any_some, Option.getD_some]
              exact (ends_mapM_elements hagrees elements 0 path).map fun _ hresults => hresults
      | field hop =>
          simp only [hop]
          apply (ends_join py path key).bind
          intro joined hjoined
          have hfield := hagrees id (member fold actual key) joined
          rwa [hjoined] at hfield

/-- The evaluator refines the readings, on every tree and every value. -/
theorem agrees (assertion : Value) : Agrees py assertion := by
  induction assertion using Value.induction_below with
  | h assertion hbelow =>
      intro fold actual path
      cases assertion with
      | scalar s => exact .ok (reports_evaluateExact py (.scalar s))
      | list assertions =>
          rw [evaluate, stumbles, satisfies, compares]
          exact ends_elementsFor (agrees_of_mem hbelow) actual path
      | dict entries =>
          rw [evaluate, stumbles, satisfies, compares]
          exact ends_evaluateMap (fun key argument hmem => hbelow.of_mem_dict hmem)
            fold actual path

end Agreement

section Totality

variable (py : Interpreter)

/-- `evaluate` returns a result exactly when the tree does not stumble on the value:
a field name that is no text can only stand where the path above it is empty. -/
theorem evaluate_returns_iff (fold : Scalar → Scalar) (assertion : Value)
    (actual : Option Value) (path : Scalar) :
    (∃ result, evaluate py fold assertion actual path = .ok result) ↔
      stumbles py fold assertion actual path.truthy = false :=
  (agrees assertion fold actual path).returns_iff

/-- A number as a field name, one level down. -/
def numberedField : Value := .object [("a", .dict [(.int 1, .int 2)])]

theorem numberedField_raises :
    ¬∃ result, evaluate .plain id numberedField (some (.object [])) (.str "") = .ok result := by
  rw [(agrees numberedField id (some (.object [])) (.str "")).returns_iff]
  decide

end Totality

end A2aItk.Acts
