import A2aItk.Acts.Resolution
import A2aItk.Acts.Satisfaction
import A2aItk.Acts.Streams

/-!
# Exceptions of an evaluation

Nothing the runner does to resolve, read or assert raises what a dispatcher raises.
-/

namespace A2aItk.Acts

open Python

/-- Not an exception of a dispatcher. -/
def Exception.Own (e : Exception) : Prop := e.isDispatchError = false

section Paths

/-- A path that cannot be read is an error of the runner's own. -/
theorem own_parseSegments (path : String) (total : ℕ) (skip : ℕ) (gap s : List Char) :
    RaisesOnly Exception.Own (parseSegments path total skip gap s) := by
  fun_induction parseSegments path total skip gap s with
  | case1 skip gap c rest ih => exact ih
  | case2 => exact .ok _ []
  | case3 gap hempty => exact .ok _ []
  | case4 gap hempty => exact .error rfl
  | case5 gap c rest hnext ih => exact ih
  | case6 gap c rest segment after hnext hgap ih =>
      apply ih.bind
      intro others _
      exact .ok _ (segment :: others)
  | case7 => exact .error rfl

/-- A whole path is parsed from its first segment on. -/
theorem own_parsePath (path : String) : RaisesOnly Exception.Own (parsePath path) :=
  own_parseSegments path _ 0 [] _

/-- Reading what is not there is no exception of a dispatcher. -/
theorem own_readSegments (segments : List Segment) (v : Value) :
    RaisesOnly Exception.Own (readSegments v segments) := by
  induction segments generalizing v with
  | nil => exact .ok _ (some v)
  | cons segment rest ih =>
      have hstep : RaisesOnly Exception.Own (segment.step v) := by
        cases segment with
        | wildcard => exact .error rfl
        | key name => exact .ok _ _
        | index position => exact .ok _ _
      apply hstep.bind
      intro inner _
      cases inner with
      | none => exact .ok _ none
      | some inner => exact ih inner

/-- A path given as a text is parsed, then read. -/
theorem own_readPath (v : Value) (path : String) : RaisesOnly Exception.Own (readPath v path) := by
  apply (own_parsePath path).bind
  exact fun segments _ => own_readSegments segments v

/-- A reading with wildcards raises no more than one without. -/
theorem own_reachAll (source : Option Value) (path : String) :
    RaisesOnly Exception.Own (reachAll source path) := by
  cases source with
  | none =>
      apply (own_parsePath path).bind
      exact fun segments _ => .ok _ _
  | some v =>
      apply RaisesOnly.bind
      · apply (own_parsePath path).bind
        exact fun segments _ => .ok _ _
      · exact fun reached _ => .ok _ _

end Paths

section Trees

variable (py : Interpreter)

/-- Putting a path together may overrun only the interpreter's digits. -/
theorem own_join (path part : Scalar) : RaisesOnly Exception.Own (join py path part) := by
  unfold join
  split
  · split
    · exact .ok _ _
    · exact .error rfl
  · exact .ok _ _

/-- An operator fails on its argument, not on a reply. -/
theorem own_matchesValue (argument actual : Value) :
    RaisesOnly Exception.Own (LeafOperator.matchesValue py argument actual) := by
  unfold LeafOperator.matchesValue
  split
  · split
    · exact .ok _ _
    · exact .error rfl
  · exact .ok _ _

/-- A leaf operator compares; it does not dispatch. -/
theorem own_holds (argument : Value) (actual : Option Value) (op : LeafOperator) :
    RaisesOnly Exception.Own (op.holds py argument actual) := by
  cases actual with
  | none => cases op <;> exact .ok _ _
  | some v =>
      cases op with
      | matchesRegex => exact own_matchesValue py argument v
      | _ => exact .ok _ _

/-- Two results together raise no more than each of them. -/
theorem own_conjoin {x y : Except Exception AssertionResult} (hx : RaisesOnly Exception.Own x)
    (hy : RaisesOnly Exception.Own y) : RaisesOnly Exception.Own (conjoin x y) :=
  hx.bind fun _ _ => hy.bind fun _ _ => .ok _ _

/-- The evaluation of the tree raises no exception of a dispatcher. -/
def OwnTree (assertion : Value) : Prop :=
  ∀ (fold : Scalar → Scalar) (actual : Option Value) (path : Scalar),
    RaisesOnly Exception.Own (evaluate py fold assertion actual path)

variable {py}

/-- A tree evaluates to no exception of a dispatcher as soon as its parts do. -/
theorem OwnTree.map {entries : List (Scalar × Value)} (h : OwnTree py (.dict entries))
    (fold : Scalar → Scalar) (actual : Option Value) (path : Scalar) :
    RaisesOnly Exception.Own (evaluateMap py fold entries actual path) := by
  simpa only [evaluate] using h fold actual path

/-- By induction on the branches of a combinator. -/
theorem own_evaluateBranches {branches : List Value} (h : ∀ branch ∈ branches, OwnTree py branch)
    (fold : Scalar → Scalar) (actual : Option Value) (path : Scalar) :
    RaisesOnly Exception.Own (evaluateBranches py fold branches actual path) := by
  induction branches with
  | nil => exact .ok _ []
  | cons branch rest ih =>
      rw [evaluateBranches]
      apply (h branch (by simp) fold actual path).bind
      intro attempt _
      apply (ih fun b hb => h b (by simp [hb])).bind
      exact fun attempts _ => .ok _ (attempt :: attempts)

/-- The options of `one_of` that are mappings are trees. -/
theorem own_evaluateOptions {options : List Value}
    (h : ∀ entries, Value.dict entries ∈ options → OwnTree py (.dict entries))
    (fold : Scalar → Scalar) (actual : Option Value) :
    RaisesOnly Exception.Own (evaluateOptions py fold options actual) := by
  induction options with
  | nil => exact .ok _ false
  | cons option rest ih =>
      have hrest := ih fun entries hentries => h entries (by simp [hentries])
      have hvalue : RaisesOnly Exception.Own
          (if actual.any fun v => same v option then pure true
            else evaluateOptions py fold rest actual) := by
        split
        · exact .ok _ true
        · exact hrest
      cases option with
      | dict entries =>
          rw [evaluateOptions]
          apply ((h entries (by simp)).map fold actual (.str "")).bind
          intro attempt _
          split
          · exact .ok _ true
          · exact hrest
      | list items => simpa only [evaluateOptions] using hvalue
      | scalar s => simpa only [evaluateOptions] using hvalue

/-- Elements are matched one by one. -/
theorem own_evaluatePositional {assertions : List Value}
    (h : ∀ assertion ∈ assertions, OwnTree py assertion) (elements : List Value) (i : ℕ)
    (path : Scalar) :
    RaisesOnly Exception.Own (evaluatePositional py assertions elements i path) := by
  induction assertions generalizing elements i with
  | nil => cases elements <;> exact .ok _ _
  | cons assertion rest ih =>
      cases elements with
      | nil => exact .ok _ _
      | cons element others =>
          rw [evaluatePositional]
          apply own_conjoin
          · apply (own_join py path (position i)).bind
            exact fun joined _ => h assertion (by simp) id (some element) joined
          · exact ih (fun a ha => h a (by simp [ha])) others (i + 1)

/-- A list of assertions is matched by position where there is an element for each. -/
theorem own_elementsFor {assertions : List Value}
    (h : ∀ assertion ∈ assertions, OwnTree py assertion) (actual : Option Value)
    (path : Scalar) :
    RaisesOnly Exception.Own
      (match elementsFor py assertions actual path with
        | .inl failure => pure failure
        | .inr elements => evaluatePositional py assertions elements 0 path) := by
  cases elementsFor py assertions actual path with
  | inl failure => exact .ok _ failure
  | inr elements => exact own_evaluatePositional h elements 0 path

/-- A mapping is evaluated key by key: combinators by their branches, fields below their path. -/
theorem own_evaluateMap {node : List (Scalar × Value)}
    (h : ∀ key argument, (key, argument) ∈ node →
      OwnTree py argument ∧ Value.Below (OwnTree py) argument)
    (fold : Scalar → Scalar) (actual : Option Value) (path : Scalar) :
    RaisesOnly Exception.Own (evaluateMap py fold node actual path) := by
  induction node with
  | nil => exact .ok _ _
  | cons entry rest ih =>
      obtain ⟨key, argument⟩ := entry
      obtain ⟨hown, hbelow⟩ := h key argument (by simp)
      have hothers := ih fun k a ha => h k a (by simp [ha])
      unfold evaluateMap
      apply own_conjoin _ hothers
      cases clause key argument with
      | leaf op hop =>
          simp only [hop]
          unfold applyLeaf
          split
          · exact .ok _ _
          · exact (own_holds py argument actual op).map
      | oneOf options hop =>
          simp only [hop]
          split
          · exact .ok _ _
          · exact (own_evaluateOptions
              (fun entries hentries => (hbelow.of_mem_list hentries).1) fold actual).map
      | allOf branches hop =>
          simp only [hop]
          exact (own_evaluateBranches (fun b hb => (hbelow.of_mem_list hb).1) fold actual path).map
      | anyOf branches hop =>
          simp only [hop]
          exact (own_evaluateBranches (fun b hb => (hbelow.of_mem_list hb).1) fold actual path).map
      | negation hop =>
          simp only [hop]
          exact (hown fold actual path).map
      | positions assertions hop =>
          simp only [hop]
          exact own_elementsFor (fun a ha => (hbelow.of_mem_list ha).1) actual path
      | elements entries hop =>
          simp only [hop]
          cases actual.bind Value.array? with
          | none => exact .ok _ _
          | some elements =>
              refine (RaisesOnly.mapM fun element _ => ?_).map
              apply (own_join py path (position element.2)).bind
              exact fun joined _ => hown.map id (some element.1) joined
      | field hop =>
          simp only [hop]
          apply (own_join py path key).bind
          exact fun joined _ => hown id (member fold actual key) joined

/-- On every tree, by induction on what lies below it. -/
theorem ownTree (assertion : Value) : OwnTree py assertion := by
  induction assertion using Value.induction_below with
  | h assertion hbelow =>
      intro fold actual path
      cases assertion with
      | scalar s => exact .ok _ _
      | list assertions =>
          rw [evaluate]
          exact own_elementsFor (fun a ha => (hbelow.of_mem_list ha).1) actual path
      | dict entries =>
          rw [evaluate]
          exact own_evaluateMap (fun key argument hmem => hbelow.of_mem_dict hmem)
            fold actual path

end Trees

section Blocks

variable (py : Interpreter)

/-- An expected error is compared with the one observed. -/
theorem own_evaluateError (expected : ExpectError) (observed : Fields) :
    RaisesOnly Exception.Own (evaluateError py expected observed) := by
  refine (RaisesOnly.mapM fun field _ => ?_).map
  apply (own_join py (.str "error") (.str field.1)).bind
  exact fun path _ => ownTree field.2 id (observed.lookup field.1) path

/-- A quantifier counts what a pattern matches. -/
theorem own_evaluateCollection (pattern : CollectionMatch) (mode : Quantifier)
    (source : Option Value) (path : Scalar) :
    RaisesOnly Exception.Own (evaluateCollection py pattern mode source path) := by
  apply (own_reachAll source pattern.path).bind
  intro reached _
  apply (own_join py path (.str pattern.path)).bind
  intro base _
  split
  · cases mode <;> exact .ok _ _
  · apply RaisesOnly.bind
    · refine RaisesOnly.mapM fun place _ => ?_
      apply (own_join py path (.str place.1)).bind
      intro located _
      apply ((ownTree (.dict (Fields.entries pattern.pattern))).map id place.2 located).bind
      exact fun outcome _ => .ok _ _
    · exact fun outcomes _ => .ok _ _

/-- The target of an assertion is read first, then checked. -/
theorem own_evaluateNamed (assertion : NamedAssertion) (source : Value) :
    RaisesOnly Exception.Own (evaluateNamed py assertion source) := by
  have htarget : RaisesOnly Exception.Own (assertion.target source) := by
    unfold NamedAssertion.target
    dsimp only
    split
    · exact .ok _ _
    · exact own_readPath source _
  have hroot : RaisesOnly Exception.Own (assertion.root py) := by
    unfold NamedAssertion.root
    dsimp only
    split
    · exact .ok _ _
    · exact own_join py _ _
  apply htarget.bind
  intro value _
  apply hroot.bind
  intro root _
  unfold checkNamed
  split
  · exact ownTree assertion.pattern id value root
  · split
    · exact own_evaluateCollection py _ .any value root
    · exact own_evaluateCollection py _ .all value root
    · exact own_evaluateCollection py _ .noneOf value root
    · exact .error rfl

end Blocks

section Scopes

variable {σ : Type} (py : Interpreter) (newUuid : σ → String × σ) (scope : Scope)

namespace Scope

/-- A reference that cannot be resolved is an error of the runner's own. -/
theorem own_resolve (reference : List Char) :
    Effects.RaisesOnly Exception.Own (scope.resolve py newUuid reference) := by
  unfold resolve
  dsimp only
  split
  · exact (Effects.RaisesOnly.update _ newUuid).map
  · split
    · split
      · exact .pure _ _
      · exact .pure _ _
      · split
        · split
          · exact .pure _ _
          · exact .throw rfl
        · split
          · exact .throw rfl
          · exact .throw rfl
    · split
      · exact .pure _ _
      · exact .throw rfl

/-- The pieces of a text are resolved from left to right. -/
theorem own_interpolate (parts : List Piece) :
    Effects.RaisesOnly Exception.Own (scope.interpolate py newUuid parts) := by
  induction parts with
  | nil => exact .pure _ []
  | cons part rest ih =>
      cases part with
      | char c => exact ih.bind fun text => .pure _ _
      | reference body =>
          apply (own_resolve py newUuid scope body).bind
          intro value
          exact ih.bind fun text => .pure _ _

/-- A text is one reference or is put together from pieces. -/
theorem own_substituteText (text : String) :
    Effects.RaisesOnly Exception.Own (scope.substituteText py newUuid text) := by
  unfold substituteText
  split
  · exact own_resolve py newUuid scope _
  · exact (own_interpolate py newUuid scope _).bind fun chars => .pure _ _

mutual

/-- A value is substituted through and through, by recursion on it. -/
theorem own_substitute : ∀ v : Value,
    Effects.RaisesOnly Exception.Own (scope.substitute py newUuid v)
  | .scalar (.str text) => own_substituteText py newUuid scope text
  | .scalar .null | .scalar (.bool _) | .scalar (.int _) | .scalar (.float _)
  | .scalar (.other _) => .pure _ _
  | .list items => (own_substituteItems items).map
  | .dict entries => (own_substituteEntries entries).map

/-- The items of a list, in order. -/
theorem own_substituteItems : ∀ items : List Value,
    Effects.RaisesOnly Exception.Own (scope.substituteItems py newUuid items)
  | [] => .pure _ []
  | v :: rest =>
      (own_substitute v).bind fun _ => (own_substituteItems rest).bind fun _ => .pure _ _

/-- The entries of a mapping, in order; keys are left as they are. -/
theorem own_substituteEntries : ∀ entries : List (Scalar × Value),
    Effects.RaisesOnly Exception.Own (scope.substituteEntries py newUuid entries)
  | [] => .pure _ []
  | (_, v) :: rest =>
      (own_substitute v).bind fun _ => (own_substituteEntries rest).bind fun _ => .pure _ _

end

/-- The fields of a block are substituted as the entries of a mapping. -/
theorem own_substituteFields (fields : Fields) :
    Effects.RaisesOnly Exception.Own (scope.substituteFields py newUuid fields) :=
  .mapM fun field _ => (own_substitute py newUuid scope field.2).bind fun _ => .pure _ _

/-- A value that may be missing. -/
theorem own_substituteGiven (v : Value) :
    Effects.RaisesOnly Exception.Own (scope.substituteGiven py newUuid v) := by
  unfold substituteGiven
  split
  · exact .pure _ _
  · exact own_substitute py newUuid scope v

/-- A text that may be missing. -/
theorem own_substituteOptional (text : Option String) :
    Effects.RaisesOnly Exception.Own (scope.substituteOptional py newUuid text) := by
  cases text with
  | none => exact .pure _ none
  | some text => exact (own_substitute py newUuid scope (.str text)).map

/-- The pattern of a collection is substituted field by field. -/
theorem own_substituteCollection (pattern : Option CollectionMatch) :
    Effects.RaisesOnly Exception.Own (scope.substituteCollection py newUuid pattern) := by
  cases pattern with
  | none => exact .pure _ none
  | some pattern =>
      apply (own_substitute py newUuid scope (.str pattern.path)).bind
      intro path
      exact (own_substituteFields py newUuid scope pattern.pattern).bind fun _ => .pure _ _

end Scope

/-- A field that has to be a text is checked after it has been substituted. -/
theorem own_textField (v : Value) : RaisesOnly Exception.Own (textField v) := by
  unfold textField
  split
  · exact .ok _ _
  · exact .error rfl

/-- A field that may be missing is checked where it is there. -/
theorem own_optionalTextField (v : Option Value) :
    RaisesOnly Exception.Own (optionalTextField v) := by
  cases v with
  | none => exact .ok _ none
  | some v =>
      have hgiven : RaisesOnly Exception.Own (some <$> textField v) := (own_textField v).map
      simp only [optionalTextField]
      split
      · exact .ok _ none
      · exact hgiven

/-- A pattern keeps its quantifier. -/
theorem own_collectionField (pattern : Option (Value × Fields)) :
    RaisesOnly Exception.Own (collectionField pattern) := by
  cases pattern with
  | none => exact .ok _ none
  | some pattern => exact (own_textField pattern.1).bind fun path _ => .ok _ _

namespace Scope

/-- An expected error is resolved field by field. -/
theorem own_resolvedError (expected : ExpectError) :
    Effects.RaisesOnly Exception.Own (scope.resolvedError py newUuid expected) := by
  apply (own_substituteGiven py newUuid scope expected.errorType).bind
  intro errorType
  apply (own_substituteGiven py newUuid scope expected.message).bind
  intro message
  apply (own_substituteGiven py newUuid scope expected.details).bind
  intro details
  split
  · exact .pure _ _
  · exact .throw rfl

/-- A named assertion is resolved field by field. -/
theorem own_resolvedAssertion (assertion : NamedAssertion) :
    Effects.RaisesOnly Exception.Own (scope.resolvedAssertion py newUuid assertion) := by
  apply (own_substituteOptional py newUuid scope assertion.id).bind
  intro id
  apply (own_substituteOptional py newUuid scope assertion.description).bind
  intro description
  apply (own_substituteOptional py newUuid scope assertion.path).bind
  intro path
  apply (own_substituteGiven py newUuid scope assertion.pattern).bind
  intro pattern
  apply (own_substituteCollection py newUuid scope assertion.any).bind
  intro any
  apply (own_substituteCollection py newUuid scope assertion.all).bind
  intro all
  apply (own_substituteCollection py newUuid scope assertion.noneOf).bind
  intro noneOf
  apply (Effects.RaisesOnly.lift (own_optionalTextField id)).bind
  intro id
  apply (Effects.RaisesOnly.lift (own_optionalTextField description)).bind
  intro description
  apply (Effects.RaisesOnly.lift (own_optionalTextField path)).bind
  intro path
  apply (Effects.RaisesOnly.lift (own_collectionField any)).bind
  intro any
  apply (Effects.RaisesOnly.lift (own_collectionField all)).bind
  intro all
  apply (Effects.RaisesOnly.lift (own_collectionField noneOf)).bind
  intro noneOf
  split
  · exact .pure _ _
  · exact .throw rfl

end Scope

end Scopes

end A2aItk.Acts
