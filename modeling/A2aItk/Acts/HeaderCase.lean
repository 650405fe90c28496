import A2aItk.Acts.AssertionOrder
import A2aItk.Acts.Expectations
import A2aItk.Acts.KeyOrder

/-!
# Header assertions and letter case

Which header names a tree asks for and which the response has matters only up to letter
case. A tree is evaluated on two values side by side: wherever it asks the one for a key,
it asks the other for a key that is read the same.

## Implementation notes

Names are the same up to letter case where `lower` sends them to the same text. A header
name that is empty has no other spelling.
-/

namespace A2aItk.Acts

open Python

section Recasing

mutual

/-- The tree with keys at field positions in another spelling. What is below a field, and a
list of assertions, is about the value of a header and stays as it is. -/
inductive Recased (K : Scalar → Scalar → Prop) : Value → Value → Prop
  | same {v : Value} (h : v.isMapping = false) : Recased K v v
  | dict {entries entries' : List (Scalar × Value)} (h : RecasedEntries K entries entries') :
      Recased K (.dict entries) (.dict entries')

/-- Entries with their field keys respelled. A leaf operator keeps its argument. -/
inductive RecasedEntries (K : Scalar → Scalar → Prop) :
    List (Scalar × Value) → List (Scalar × Value) → Prop
  | nil : RecasedEntries K [] []
  | field {key key' : Scalar} {argument : Value} {rest rest' : List (Scalar × Value)}
      (hfield : operator? key argument = none) (hfield' : operator? key' argument = none)
      (hkey : K key key') (hrest : RecasedEntries K rest rest') :
      RecasedEntries K ((key, argument) :: rest) ((key', argument) :: rest')
  | negation {key : Scalar} {argument argument' : Value} {rest rest' : List (Scalar × Value)}
      (hop : operator? key argument = some .negation)
      (hargument : Recased K argument argument') (hrest : RecasedEntries K rest rest') :
      RecasedEntries K ((key, argument) :: rest) ((key, argument') :: rest')
  | branches {key : Scalar} {branches branches' : List Value} {op : Operator}
      {rest rest' : List (Scalar × Value)} (hop : operator? key (.list branches) = some op)
      (hcombines : op = .oneOf ∨ op = .allOf ∨ op = .anyOf)
      (hbranches : RecasedBranches K branches branches') (hrest : RecasedEntries K rest rest') :
      RecasedEntries K ((key, .list branches) :: rest) ((key, .list branches') :: rest')
  | value {key : Scalar} {argument : Value} {op : Operator}
      {rest rest' : List (Scalar × Value)} (hop : operator? key argument = some op)
      (hvalue : (∃ leaf, op = .leaf leaf) ∨ op = .items) (hrest : RecasedEntries K rest rest') :
      RecasedEntries K ((key, argument) :: rest) ((key, argument) :: rest')

/-- Branches respelled one by one. -/
inductive RecasedBranches (K : Scalar → Scalar → Prop) : List Value → List Value → Prop
  | nil : RecasedBranches K [] []
  | cons {branch branch' : Value} {rest rest' : List Value} (hbranch : Recased K branch branch')
      (hrest : RecasedBranches K rest rest') :
      RecasedBranches K (branch :: rest) (branch' :: rest')

end

variable {K : Scalar → Scalar → Prop}

/-- Branches that stay as they are. -/
theorem RecasedBranches.refl {branches : List Value}
    (h : ∀ branch ∈ branches, Recased K branch branch) : RecasedBranches K branches branches := by
  induction branches with
  | nil => exact .nil
  | cons branch rest ih =>
      rw [List.forall_mem_cons] at h
      exact .cons h.1 (ih h.2)

/-- A tree is itself in the spelling it has. -/
theorem Recased.refl (hK : ∀ key, K key key) (tree : Value) : Recased K tree tree := by
  induction tree using Value.induction_below with
  | h tree hbelow =>
      cases tree with
      | scalar s => exact .same rfl
      | list items => exact .same rfl
      | dict entries =>
          apply Recased.dict
          have hentries : ∀ key argument, (key, argument) ∈ entries →
              Recased K argument argument ∧
                Value.Below (fun v => Recased K v v) argument :=
            fun key argument hmem => hbelow.of_mem_dict hmem
          clear hbelow
          induction entries with
          | nil => exact .nil
          | cons entry rest ih =>
              obtain ⟨key, argument⟩ := entry
              have hrest := ih fun k a ha => hentries k a (by simp [ha])
              obtain ⟨hargument, hbelow⟩ := hentries key argument (by simp)
              have hitems : ∀ items, argument = .list items →
                  RecasedBranches K items items := by
                rintro items rfl
                exact .refl fun v hv => (hbelow.of_mem_list hv).1
              cases clause key argument with
              | leaf op hop => exact .value hop (.inl ⟨op, rfl⟩) hrest
              | oneOf options hop =>
                  exact .branches hop (.inl rfl) (hitems options rfl) hrest
              | allOf branches hop =>
                  exact .branches hop (.inr (.inl rfl)) (hitems branches rfl) hrest
              | anyOf branches hop =>
                  exact .branches hop (.inr (.inr rfl)) (hitems branches rfl) hrest
              | negation hop => exact .negation hop hargument hrest
              | positions assertions hop => exact .value hop (.inr rfl) hrest
              | elements entries hop => exact .value hop (.inr rfl) hrest
              | field hop => exact .field hop hop (hK key) hrest

/-- Respelling leaves no branch out. -/
theorem RecasedBranches.isEmpty_eq {branches branches' : List Value}
    (h : RecasedBranches K branches branches') : branches.isEmpty = branches'.isEmpty := by
  cases h <;> rfl

/-- Only whether there is a branch at all decides what a list is accepted for. -/
theorem operator?_list_congr (key : Scalar) {branches branches' : List Value}
    (h : branches.isEmpty = branches'.isEmpty) :
    operator? key (.list branches) = operator? key (.list branches') := by
  have haccepts : ∀ op : Operator,
      op.accepts (.list branches) = op.accepts (.list branches') := by
    intro op
    cases op with
    | leaf op => cases op <;> rfl
    | allOf => simp [Operator.accepts, Value.array?, h]
    | anyOf => simp [Operator.accepts, Value.array?, h]
    | _ => rfl
  cases key with
  | str s => simp only [operator?, haccepts]
  | _ => rfl

/-- `not` takes any argument. -/
theorem operator?_negation {key : Scalar} {argument : Value}
    (h : operator? key argument = some .negation) (argument' : Value) :
    operator? key argument' = some .negation := by
  cases key with
  | str s =>
      have hname := List.find?_some h
      simp only [Bool.and_eq_true, decide_eq_true_eq] at hname
      obtain ⟨rfl, _⟩ := hname
      exact operator?_not argument'
  | _ => cases h

end Recasing

section Scores

/-- The same verdict and the same number of checks. -/
structure SameScore (a b : AssertionResult) : Prop where
  ok : a.ok = b.ok
  checks : a.checks = b.checks

namespace SameScore

variable {a b a' b' : AssertionResult}

/-- A result scores like itself. -/
theorem refl (a : AssertionResult) : SameScore a a := ⟨rfl, rfl⟩

/-- Failures score alike, whatever they say. -/
theorem fail {path path' : Scalar} {operator operator' : String} {expected expected' : Value}
    {actual other : Option Value} {message message' : String} :
    SameScore (.fail path operator expected actual message)
      (.fail path' operator' expected' other message') := ⟨rfl, rfl⟩

/-- Results that are put together score alike if their parts do. -/
theorem add (h : SameScore a b) (h' : SameScore a' b') : SameScore (a + a') (b + b') := by
  constructor
  · rw [AssertionResult.ok_add, AssertionResult.ok_add, h.ok, h'.ok]
  · rw [AssertionResult.checks_add, AssertionResult.checks_add, h.checks, h'.checks]

/-- The totals of results that score alike score alike. -/
theorem total {results results' : List AssertionResult}
    (h : List.Forall₂ SameScore results results') :
    SameScore (.total results) (.total results') := by
  induction h with
  | nil => exact .refl _
  | cons hhead _ ih => exact hhead.add ih

/-- If one of two lists of results that score alike has a success, so has the other. -/
theorem any_ok {results results' : List AssertionResult}
    (h : List.Forall₂ SameScore results results') :
    results.any AssertionResult.ok = results'.any AssertionResult.ok := by
  induction h with
  | nil => rfl
  | cons hhead _ ih => rw [List.any_cons, List.any_cons, hhead.ok, ih]

end SameScore

variable (py : Interpreter) {fold : Scalar → Scalar} {K : Scalar → Scalar → Prop}
  {actual other : Option Value} {path path' : Scalar}

/-- A verdict on an operator scores by whether it holds. -/
theorem sameScore_verdictOf (op : Operator) (argument argument' : Value) (holds : Bool) :
    SameScore (verdictOf py op argument actual path holds)
      (verdictOf py op argument' other path' holds) := by
  cases holds with
  | true => exact .refl _
  | false => exact .fail

/-- Keys that are read the same. -/
structure Spelling (K : Scalar → Scalar → Prop) : Prop where
  self : ∀ key, K key key
  text : ∀ key key', K key key' →
    (Value.scalar key).text?.isSome = (Value.scalar key').text?.isSome
  truthy : ∀ key key', K key key' → key.truthy = key'.truthy

/-- To be the same is to be spelled alike. -/
theorem Spelling.eq : Spelling Eq :=
  ⟨fun _ => rfl, fun _ _ h => h ▸ rfl, fun _ _ h => h ▸ rfl⟩

/-- Values that no tree can tell apart, as long as it asks the one for a key and the other
for a key that is read the same. -/
structure ReadAlike (fold : Scalar → Scalar) (K : Scalar → Scalar → Prop)
    (actual other : Option Value) : Prop where
  isSome : actual.isSome = other.isSome
  member : ∀ key key', K key key' → member fold actual key = member fold other key'
  array : actual.bind Value.array? = other.bind Value.array?
  same : ∀ w : Value, w.isMapping = false →
    (actual.any fun v => same v w) = other.any fun v => same v w
  holds : ∀ (op : LeafOperator) (s : Scalar),
    op.holds py (.scalar s) actual = op.holds py (.scalar s) other

/-- A value is read like itself. -/
theorem ReadAlike.refl (actual : Option Value) : ReadAlike py id Eq actual actual :=
  ⟨rfl, fun _ _ h => h ▸ rfl, rfl, fun _ _ => rfl, fun _ _ => rfl⟩

/-- In another spelling, on a value read alike, and below another path, the tree comes to
the same score. -/
def ScoresAlike (tree : Value) : Prop :=
  ∀ (fold : Scalar → Scalar) (K : Scalar → Scalar → Prop), Spelling K →
    ∀ tree', Recased K tree tree' → ∀ actual other, ReadAlike py fold K actual other →
      ∀ path path' : Scalar, path.truthy = path'.truthy →
        Corresponds SameScore (evaluate py fold tree actual path)
          (evaluate py fold tree' other path')

variable {py}

/-- A path that cannot be joined raises one exception only. -/
theorem eq_of_join_eq_error {key : Scalar} {e : Exception} (h : join py path key = .error e) :
    e = .builtin .attributeError := by
  unfold join at h
  split at h
  · split at h
    · cases h
    · cases h
      rfl
  · cases h

/-- Joining asks of a path whether it is empty, and of a key whether it is a text. -/
theorem corresponds_join {key key' : Scalar} (hpath : path.truthy = path'.truthy)
    (htext : (Value.scalar key).text?.isSome = (Value.scalar key').text?.isSome)
    (htruthy : key.truthy = key'.truthy) :
    Corresponds (fun p p' => p.truthy = p'.truthy) (join py path key) (join py path' key') := by
  have hjoin := ends_join py path key
  have hjoin' := ends_join py path' key'
  rw [← hpath, ← htext, ← htruthy] at hjoin'
  cases hx : join py path key with
  | ok p =>
      rw [hx] at hjoin
      cases hy : join py path' key' with
      | ok p' =>
          rw [hy] at hjoin'
          exact hjoin.2.trans hjoin'.2.symm
      | error e =>
          rw [hy, hjoin.1] at hjoin'
          cases hjoin'
  | error e =>
      rw [hx] at hjoin
      cases hy : join py path' key' with
      | ok p' =>
          have hraises : (path.truthy && !(Value.scalar key).text?.isSome) = true := hjoin
          rw [hy, hraises] at hjoin'
          cases hjoin'.1
      | error e' => exact (eq_of_join_eq_error hx).trans (eq_of_join_eq_error hy).symm

/-- A position is a text in both. -/
theorem corresponds_join_position (hpath : path.truthy = path'.truthy) (i : ℕ) :
    Corresponds (fun p p' => p.truthy = p'.truthy) (join py path (position i))
      (join py path' (position i)) :=
  corresponds_join hpath rfl rfl

/-- Two results in a row correspond if each does. -/
theorem corresponds_conjoin {x x' y y' : Except Exception AssertionResult}
    (hx : Corresponds SameScore x x') (hy : Corresponds SameScore y y') :
    Corresponds SameScore (conjoin x y) (conjoin x' y') := by
  apply hx.bind
  intro a a' ha
  apply hy.bind
  intro b b' hb
  exact ha.add hb

/-- A leaf operator compares what is read alike. -/
theorem corresponds_applyLeaf (hactual : ReadAlike py fold K actual other) (op : LeafOperator)
    (s : Scalar) :
    Corresponds SameScore (applyLeaf py op (.scalar s) actual path)
      (applyLeaf py op (.scalar s) other path') := by
  have hmissing : actual.isNone = other.isNone := by
    rw [← Option.not_isSome, ← Option.not_isSome, hactual.isSome]
  unfold applyLeaf
  rw [hmissing, hactual.holds]
  split
  · exact SameScore.fail
  · apply (Corresponds.refl (fun _ => rfl) (op.holds py (.scalar s) other)).map
    rintro b b' rfl
    exact sameScore_verdictOf py _ _ _ b

/-- A scalar is compared with what is read alike. -/
theorem sameScore_evaluateExact (hactual : ReadAlike py fold K actual other) (s : Scalar) :
    SameScore (evaluateExact py (.scalar s) actual path)
      (evaluateExact py (.scalar s) other path') := by
  have hpresent := hactual.isSome
  have hsame := hactual.same (.scalar s) rfl
  cases actual with
  | none =>
      cases other with
      | none => exact .fail
      | some w => cases hpresent
  | some v =>
      cases other with
      | none => cases hpresent
      | some w =>
          rw [Option.any_some, Option.any_some] at hsame
          rw [evaluateExact, evaluateExact, hsame]
          split
          · exact .refl _
          · exact .fail

/-- Respelled branches score alike one by one, by induction on them. -/
theorem corresponds_branches (hK : Spelling K) {branches branches' : List Value}
    (h : ∀ branch ∈ branches, ScoresAlike py branch)
    (hbranches : RecasedBranches K branches branches')
    (hactual : ReadAlike py fold K actual other) (hpath : path.truthy = path'.truthy) :
    Corresponds (List.Forall₂ SameScore) (evaluateBranches py fold branches actual path)
      (evaluateBranches py fold branches' other path') := by
  induction branches generalizing branches' with
  | nil =>
      cases hbranches
      exact .nil
  | cons branch rest ih =>
      rw [List.forall_mem_cons] at h
      cases hbranches with
      | cons hbranch hrest =>
          rw [evaluateBranches, evaluateBranches]
          apply (h.1 fold K hK _ hbranch actual other hactual path path' hpath).bind
          intro attempt attempt' hattempt
          apply (ih h.2 hrest).bind
          intro attempts attempts' hattempts
          exact .cons hattempt hattempts

/-- A path plays no part in what the options of `one_of` come to. -/
theorem corresponds_options (hK : Spelling K) {options options' : List Value}
    (h : ∀ option ∈ options, ScoresAlike py option)
    (hoptions : RecasedBranches K options options')
    (hactual : ReadAlike py fold K actual other) :
    Corresponds Eq (evaluateOptions py fold options actual)
      (evaluateOptions py fold options' other) := by
  induction options generalizing options' with
  | nil =>
      cases hoptions
      exact rfl
  | cons option rest ih =>
      rw [List.forall_mem_cons] at h
      cases hoptions with
      | cons hoption hrest =>
          have hothers := ih h.2 hrest
          cases hoption with
          | same hvalue =>
              cases option with
              | dict entries => cases hvalue
              | _ =>
                  rw [evaluateOptions, evaluateOptions, hactual.same _ hvalue]
                  · split
                    · exact rfl
                    · exact hothers
                  · rintro entries ⟨⟩
                  · rintro entries ⟨⟩
          | dict hentries =>
              rw [evaluateOptions, evaluateOptions]
              have hmap := h.1 fold K hK _ (.dict hentries) actual other hactual (.str "")
                (.str "") rfl
              simp only [evaluate] at hmap
              apply hmap.bind
              intro attempt attempt' hattempt
              rw [hattempt.ok]
              split
              · exact rfl
              · exact hothers

/-- Assertions by position score alike, by induction on them. -/
theorem corresponds_positional {assertions : List Value}
    (h : ∀ assertion ∈ assertions, ScoresAlike py assertion) (elements : List Value) (i : ℕ)
    (hpath : path.truthy = path'.truthy) :
    Corresponds SameScore (evaluatePositional py assertions elements i path)
      (evaluatePositional py assertions elements i path') := by
  induction assertions generalizing elements i with
  | nil => cases elements <;> exact SameScore.refl _
  | cons assertion rest ih =>
      rw [List.forall_mem_cons] at h
      cases elements with
      | nil => exact SameScore.refl _
      | cons element others =>
          rw [evaluatePositional, evaluatePositional]
          refine corresponds_conjoin ?_ (ih h.2 others (i + 1))
          apply (corresponds_join_position hpath i).bind
          intro joined joined' hjoined
          exact h.1 id Eq .eq _ (.refl Spelling.eq.self _) _ _ (.refl py _) _ _ hjoined

/-- A list of assertions, under `items` or by itself. -/
theorem corresponds_elementsFor {assertions : List Value}
    (h : ∀ assertion ∈ assertions, ScoresAlike py assertion)
    (harray : actual.bind Value.array? = other.bind Value.array?)
    (hpath : path.truthy = path'.truthy) :
    Corresponds SameScore
      (match elementsFor py assertions actual path with
        | .inl failure => pure failure
        | .inr elements => evaluatePositional py assertions elements 0 path)
      (match elementsFor py assertions other path' with
        | .inl failure => pure failure
        | .inr elements => evaluatePositional py assertions elements 0 path') := by
  unfold elementsFor
  rw [harray]
  cases other.bind Value.array? with
  | none => exact SameScore.fail
  | some elements =>
      by_cases hlen : elements.length < assertions.length
      · simp only [if_pos hlen]
        exact SameScore.fail
      · simp only [if_neg hlen]
        exact corresponds_positional h elements 0 hpath

/-- An `items` mapping is evaluated on the same elements. -/
theorem corresponds_elements {entries : List (Scalar × Value)}
    (h : ScoresAlike py (.dict entries)) (elements : List Value) (i : ℕ)
    (hpath : path.truthy = path'.truthy) :
    Corresponds (List.Forall₂ SameScore)
      ((elements.zipIdx i).mapM fun element => do
        evaluateMap py id entries (some element.1) (← join py path (position element.2)))
      ((elements.zipIdx i).mapM fun element => do
        evaluateMap py id entries (some element.1) (← join py path' (position element.2))) := by
  induction elements generalizing i with
  | nil => exact .nil
  | cons element rest ih =>
      rw [List.zipIdx_cons, List.mapM_cons, List.mapM_cons]
      have hhead : Corresponds SameScore
          (do evaluateMap py id entries (some element) (← join py path (position i)))
          (do evaluateMap py id entries (some element) (← join py path' (position i))) := by
        apply (corresponds_join_position hpath i).bind
        intro joined joined' hjoined
        have hmap := h id Eq .eq _ (.refl Spelling.eq.self _) _ _ (.refl py (some element))
          _ _ hjoined
        simpa only [evaluate] using hmap
      apply hhead.bind
      intro result result' hresult
      apply (ih (i + 1)).bind
      intro results results' hresults
      exact .cons hresult hresults

/-- One entry after the other, in the spelling each tree has for it. -/
theorem corresponds_map (hK : Spelling K) {node node' : List (Scalar × Value)}
    (h : ∀ key argument, (key, argument) ∈ node →
      ScoresAlike py argument ∧ Value.Below (ScoresAlike py) argument)
    (hnode : RecasedEntries K node node') (hactual : ReadAlike py fold K actual other)
    (hpath : path.truthy = path'.truthy) :
    Corresponds SameScore (evaluateMap py fold node actual path)
      (evaluateMap py fold node' other path') := by
  induction node generalizing node' with
  | nil =>
      cases hnode
      exact SameScore.refl _
  | cons entry rest ih =>
      obtain ⟨hargument, hbelow⟩ := h entry.1 entry.2 (by simp)
      unfold evaluateMap
      cases hnode with
      | @field key key' argument _ rest' hfield hfield' hkey hrest =>
          refine corresponds_conjoin ?_ (ih (fun k a ha => h k a (by simp [ha])) hrest)
          simp only [hfield, hfield']
          apply (corresponds_join hpath (hK.text _ _ hkey) (hK.truthy _ _ hkey)).bind
          intro joined joined' hjoined
          rw [hactual.member _ _ hkey]
          exact hargument id Eq .eq _ (.refl Spelling.eq.self _) _ _ (.refl py _) _ _ hjoined
      | @negation key argument argument' _ rest' hop hrecased hrest =>
          refine corresponds_conjoin ?_ (ih (fun k a ha => h k a (by simp [ha])) hrest)
          simp only [hop, operator?_negation hop argument']
          apply (hargument fold K hK _ hrecased _ _ hactual _ _ hpath).map
          intro attempt attempt' hattempt
          rw [negationResult, negationResult, hattempt.ok]
          split
          · exact .fail
          · exact .refl _
      | @branches key branches branches' op _ rest' hop hcombines hbranches hrest =>
          refine corresponds_conjoin ?_ (ih (fun k a ha => h k a (by simp [ha])) hrest)
          have hop' := hop
          rw [operator?_list_congr key hbranches.isEmpty_eq] at hop'
          have hitems : ∀ branch ∈ branches, ScoresAlike py branch :=
            fun branch hbranch => (hbelow.of_mem_list hbranch).1
          rcases hcombines with rfl | rfl | rfl
          · simp only [hop, hop']
            have hmissing : actual.isNone = other.isNone := by
              rw [← Option.not_isSome, ← Option.not_isSome, hactual.isSome]
            rw [hmissing]
            split
            · exact SameScore.fail
            · apply (corresponds_options hK hitems hbranches hactual).map
              rintro found found' rfl
              exact sameScore_verdictOf py _ _ _ found
          · simp only [hop, hop']
            apply (corresponds_branches hK hitems hbranches hactual hpath).map
            exact fun attempts attempts' hattempts => .total hattempts
          · simp only [hop, hop']
            apply (corresponds_branches hK hitems hbranches hactual hpath).map
            intro attempts attempts' hattempts
            rw [anyOfResult, anyOfResult, SameScore.any_ok hattempts]
            split
            · exact .refl _
            · exact .fail
      | @value key argument op _ rest' hop hvalue hrest =>
          refine corresponds_conjoin ?_ (ih (fun k a ha => h k a (by simp [ha])) hrest)
          rcases hvalue with ⟨leaf, rfl⟩ | rfl
          · obtain ⟨s, rfl⟩ := scalar_of_operator? hop
            simp only [hop]
            exact corresponds_applyLeaf hactual leaf s
          · cases clause key argument with
            | positions assertions _ =>
                simp only [hop]
                exact corresponds_elementsFor (fun v hv => (hbelow.of_mem_list hv).1)
                  hactual.array hpath
            | elements entries _ =>
                simp only [hop]
                rw [hactual.array]
                cases other.bind Value.array? with
                | none => exact SameScore.fail
                | some elements =>
                    apply (corresponds_elements hargument elements 0 hpath).map
                    exact fun results results' hresults => .total hresults
            | leaf op hop' => simp [hop] at hop'
            | oneOf options hop' => simp [hop] at hop'
            | allOf branches hop' => simp [hop] at hop'
            | anyOf branches hop' => simp [hop] at hop'
            | negation hop' => simp [hop] at hop'
            | field hop' => simp [hop] at hop'

/-- By recursion on the tree: every key of a mapping is an operator or a field. -/
theorem scoresAlike (tree : Value) : ScoresAlike py tree := by
  induction tree using Value.induction_below with
  | h tree hbelow =>
      intro fold K hK tree' htree actual other hactual path path' hpath
      cases htree with
      | same hvalue =>
          cases tree with
          | dict entries => cases hvalue
          | scalar s =>
              rw [evaluate, evaluate]
              exact sameScore_evaluateExact hactual s
          | list assertions =>
              rw [evaluate, evaluate]
              exact corresponds_elementsFor (fun v hv => (hbelow.of_mem_list hv).1)
                hactual.array hpath
      | dict hentries =>
          rw [evaluate, evaluate]
          exact corresponds_map hK (fun key argument hmem => hbelow.of_mem_dict hmem) hentries
            hactual hpath

end Scores

section Headers

variable (py : Interpreter)

/-- Two spellings of a header name. Any other key has one. -/
def CaseVariant : Scalar → Scalar → Prop
  | .str name, .str name' => py.lower name = py.lower name' ∧ (name = "" ↔ name' = "")
  | key, key' => key = key'

/-- Case variants are spellings. -/
theorem spelling_caseVariant : Spelling (CaseVariant py) where
  self key := by cases key <;> simp [CaseVariant]
  text key key' h := by
    cases key <;> cases key' <;> simp_all [CaseVariant, Value.text?]
  truthy key key' h := by
    cases key <;> cases key' <;> simp_all [CaseVariant, Scalar.truthy]

/-- Case variants are folded to one key. -/
theorem foldName_congr {key key' : Scalar} (h : CaseVariant py key key') :
    foldName py key = foldName py key' := by
  cases key <;> cases key' <;> simp_all [CaseVariant, foldName]

/-- The headers of a response, as the evaluator receives them. -/
def headerValue (headers : Dict String String) : Value :=
  .dict (headers.entries.map fun header => (.str header.1, .str header.2))

/-- The same headers up to letter case of their names. -/
structure SameUpToCase (a b : Dict String String) : Prop where
  left : ∀ name v, (name, v) ∈ a.entries →
    ∃ name', (name', v) ∈ b.entries ∧ py.lower name = py.lower name'
  right : ∀ name v, (name, v) ∈ b.entries →
    ∃ name', (name', v) ∈ a.entries ∧ py.lower name = py.lower name'

/-- No two names differ only in case. -/
def OneSpelling (headers : Dict String String) : Prop := (headers.keys.map py.lower).Nodup

/-- The headers by lower-case name. -/
def lowered (headers : Dict String String) : List (Scalar × Value) :=
  headers.entries.map fun header => (.str (py.lower header.1), .str header.2)

variable {py} {a b : Dict String String}

/-- Headers in one spelling stay apart when they are lowered. -/
theorem distinct_lowered (h : OneSpelling py a) : ((lowered py a).map Prod.fst).Nodup := by
  have hkeys : (lowered py a).map Prod.fst = (a.keys.map py.lower).map Scalar.str := by
    simp [lowered, Dict.keys, Function.comp_def]
  rw [hkeys]
  exact h.map fun _ _ heq => Scalar.str.inj heq

/-- What the evaluation makes of such headers. -/
theorem foldedHeaders_headerValue (h : OneSpelling py a) :
    foldedHeaders py (headerValue a) = .ok (.dict (lowered py a)) := by
  unfold foldedHeaders
  split
  · rename_i hempty
    have hnil : a.entries = [] := by simpa [headerValue, Value.truthy] using hempty
    rw [lowered, hnil]
    rfl
  · apply bind_eq_ok_iff.mpr
    refine ⟨lowered py a, ?_, ?_⟩
    · refine (mapM_eq_ok_of_forall (g := fun entry => (foldName py entry.1, entry.2)) ?_).trans ?_
      · intro entry hentry
        obtain ⟨header, _, rfl⟩ := List.mem_map.mp hentry
        rfl
      · rw [List.map_map]
        rfl
    · rw [Dict.entries_ofList_of_nodup (distinct_lowered h)]
      rfl

/-- Headers that agree up to case are lowered to the same entries. -/
theorem mem_lowered_iff (h : SameUpToCase py a b) (entry : Scalar × Value) :
    entry ∈ lowered py a ↔ entry ∈ lowered py b := by
  have hsub : ∀ {a b : Dict String String}, (∀ name v, (name, v) ∈ a.entries →
      ∃ name', (name', v) ∈ b.entries ∧ py.lower name = py.lower name') →
        entry ∈ lowered py a → entry ∈ lowered py b := by
    intro a b hab hentry
    obtain ⟨⟨name, v⟩, hmem, rfl⟩ := List.mem_map.mp hentry
    obtain ⟨name', hmem', hname⟩ := hab name v hmem
    exact List.mem_map.mpr ⟨(name', v), hmem', by rw [hname]⟩
  exact ⟨hsub h.left, hsub h.right⟩

/-- No two of them have one key. -/
theorem distinctKeys_lowered (h : OneSpelling py a) : Value.DistinctKeys (lowered py a) := by
  have hdistinct := distinct_lowered h
  rw [List.Nodup, List.pairwise_map] at hdistinct
  apply hdistinct.imp_of_mem
  intro x y hx hy hne
  obtain ⟨header, _, rfl⟩ := List.mem_map.mp hy
  exact ⟨hne, by rw [Bool.eq_false_iff, ne_eq, scalar_eq_str_iff]; exact hne⟩

/-- A lookup finds the same in both, whatever their order. -/
theorem lookup_lowered (ha : OneSpelling py a) (hb : OneSpelling py b)
    (h : SameUpToCase py a b) (key : Scalar) :
    Value.lookup key (lowered py a) = Value.lookup key (lowered py b) := by
  ext v
  rw [Value.lookup_eq_some_iff (distinctKeys_lowered ha),
    Value.lookup_eq_some_iff (distinctKeys_lowered hb)]
  simp only [mem_lowered_iff h]

/-- Of a mapping an operator sees nothing but that it is one. -/
theorem holdsOf_dict (op : LeafOperator) (s : Scalar) (entries entries' : List (Scalar × Value)) :
    op.holdsOf py (.scalar s) (.dict entries) = op.holdsOf py (.scalar s) (.dict entries') := by
  have htest : ∀ name, (LeafOperator.typeTest name).map (fun test => test (.dict entries)) =
      (LeafOperator.typeTest name).map fun test => test (.dict entries') := by
    intro name
    unfold LeafOperator.typeTest
    split <;> rfl
  cases op with
  | type =>
      simp only [LeafOperator.holdsOf]
      cases (Value.scalar s).text? with
      | none => rfl
      | some name => rw [Option.bind_some, htest]
  | _ => rfl

/-- Lowered headers that agree up to case are read alike. -/
theorem readAlike_lowered (ha : OneSpelling py a) (hb : OneSpelling py b)
    (h : SameUpToCase py a b) :
    ReadAlike py (foldName py) (CaseVariant py) (some (.dict (lowered py a)))
      (some (.dict (lowered py b))) where
  isSome := rfl
  member key key' hkey := by
    rw [member, member, foldName_congr py hkey]
    exact lookup_lowered ha hb h _
  array := rfl
  same w hw := by
    cases w with
    | dict entries => cases hw
    | _ => simp [Acts.same, Value.eq]
  holds op s := holdsOf_dict op s _ _

/-- Headers are read like themselves, also under folded keys. -/
theorem readAlike_self (actual : Option Value) :
    ReadAlike py (foldName py) (CaseVariant py) actual actual where
  isSome := rfl
  member key key' hkey := by rw [member, member, foldName_congr py hkey]
  array := rfl
  same _ _ := rfl
  holds _ _ := rfl

/-- What an evaluation comes to: the verdict and the number of checks. -/
def score (x : Except Exception AssertionResult) : Except Exception (Bool × ℕ) :=
  x.map fun result => (result.ok, result.checks)

/-- Results that correspond have one score. -/
theorem score_eq {x y : Except Exception AssertionResult} (h : Corresponds SameScore x y) :
    score x = score y := by
  cases x with
  | error e =>
      cases y with
      | error e' =>
          have he : e = e' := h
          rw [he]
      | ok r => exact h.elim
  | ok r =>
      cases y with
      | error e' => exact h.elim
      | ok r' =>
          have hscore : (r.ok, r.checks) = (r'.ok, r'.checks) := by rw [h.ok, h.checks]
          exact congrArg Except.ok hscore

/-- Headers that are read alike score alike under respelled trees. -/
theorem score_evaluateHeaders {headers headers' : Fields} {actual other folded folded' : Value}
    {path : String} (hactual : foldedHeaders py actual = .ok folded)
    (hother : foldedHeaders py other = .ok folded')
    (hheaders : RecasedEntries (CaseVariant py) headers.entries headers'.entries)
    (halike : ReadAlike py (foldName py) (CaseVariant py) (some folded) (some folded')) :
    score (evaluateHeaders py headers actual path) =
      score (evaluateHeaders py headers' other path) := by
  apply score_eq
  rw [evaluateHeaders, evaluateHeaders, hactual, hother]
  exact corresponds_map (spelling_caseVariant py)
    (fun _ argument _ => ⟨scoresAlike argument, fun w _ => scoresAlike w⟩) hheaders halike rfl

/-- Header assertions ignore letter case: on headers equal up to the case of their names the
score is the same, and so is that of a tree that spells header names in another case. -/
theorem evaluateHeaders_ignores_case (py : Interpreter) (headers : Fields) (path : String) :
    (∀ a b : Dict String String, OneSpelling py a → OneSpelling py b → SameUpToCase py a b →
      score (evaluateHeaders py headers (headerValue a) path) =
        score (evaluateHeaders py headers (headerValue b) path)) ∧
    ∀ (headers' : Fields) (actual : Value),
      RecasedEntries (CaseVariant py) headers.entries headers'.entries →
        score (evaluateHeaders py headers actual path) =
          score (evaluateHeaders py headers' actual path) := by
  constructor
  · intro a b ha hb h
    have hself : Recased (CaseVariant py) (.dict headers.entries) (.dict headers.entries) :=
      .refl (spelling_caseVariant py).self _
    cases hself with
    | same hvalue => cases hvalue
    | dict hentries =>
        exact score_evaluateHeaders (foldedHeaders_headerValue ha) (foldedHeaders_headerValue hb)
          hentries (readAlike_lowered ha hb h)
  · intro headers' actual hheaders
    cases hfolded : foldedHeaders py actual with
    | ok folded => exact score_evaluateHeaders hfolded hfolded hheaders (readAlike_self _)
    | error e =>
        rw [evaluateHeaders, evaluateHeaders, hfolded]
        rfl

/-- An interpreter for ASCII texts without floats. -/
def asciiInterpreter : Interpreter :=
  { Interpreter.plain with lower text := String.ofList (text.toList.map Char.toLower) }

/-- Two headers as a server may send them. -/
def sentHeaders : Dict String String :=
  ⟨[("Content-Type", "application/json"), ("X-Id", "1")], by decide⟩

/-- The same in lower case, the other way round. -/
def sentHeadersLower : Dict String String :=
  ⟨[("x-id", "1"), ("content-type", "application/json")], by decide⟩

/-- Assertions on both headers, one of them within a combinator. -/
def headerTree : Fields :=
  [("Content-Type", .object [("starts_with", .str "application/")]),
    ("any_of", .list [.object [("X-ID", .str "1")]])]

/-- The same with its field keys in lower case. -/
def headerTreeLower : Fields :=
  [("content-type", .object [("starts_with", .str "application/")]),
    ("any_of", .list [.object [("x-id", .str "1")]])]

/-- The headers differ in case and order only. -/
theorem sameUpToCase_sent : SameUpToCase asciiInterpreter sentHeaders sentHeadersLower := by
  have hcontent : asciiInterpreter.lower "Content-Type" =
      asciiInterpreter.lower "content-type" := by decide +kernel
  have hid : asciiInterpreter.lower "X-Id" = asciiInterpreter.lower "x-id" := by decide +kernel
  constructor
  · intro name v hmem
    simp only [sentHeaders, List.mem_cons, Prod.mk.injEq, List.not_mem_nil, or_false] at hmem
    rcases hmem with ⟨rfl, rfl⟩ | ⟨rfl, rfl⟩
    · exact ⟨"content-type", by simp [sentHeadersLower], hcontent⟩
    · exact ⟨"x-id", by simp [sentHeadersLower], hid⟩
  · intro name v hmem
    simp only [sentHeadersLower, List.mem_cons, Prod.mk.injEq, List.not_mem_nil, or_false]
      at hmem
    rcases hmem with ⟨rfl, rfl⟩ | ⟨rfl, rfl⟩
    · exact ⟨"X-Id", by simp [sentHeaders], hid.symm⟩
    · exact ⟨"Content-Type", by simp [sentHeaders], hcontent.symm⟩

/-- The trees differ in the case of their field keys only. -/
theorem recased_headerTree : RecasedEntries (CaseVariant asciiInterpreter) headerTree.entries
    headerTreeLower.entries := by
  have hcontent : asciiInterpreter.lower "Content-Type" =
      asciiInterpreter.lower "content-type" := by decide +kernel
  have hid : asciiInterpreter.lower "X-ID" = asciiInterpreter.lower "x-id" := by decide +kernel
  have hbranch : Recased (CaseVariant asciiInterpreter) (.object [("X-ID", .str "1")])
      (.object [("x-id", .str "1")]) :=
    .dict (.field rfl rfl ⟨hid, by simp⟩ .nil)
  exact .field rfl rfl ⟨hcontent, by simp⟩
    (.branches rfl (.inr (.inr rfl)) (.cons hbranch .nil) .nil)

theorem evaluateHeaders_sample :
    score (evaluateHeaders asciiInterpreter headerTree (headerValue sentHeaders) "headers") =
        score (evaluateHeaders asciiInterpreter headerTree (headerValue sentHeadersLower)
          "headers") ∧
      score (evaluateHeaders asciiInterpreter headerTree (headerValue sentHeaders) "headers") =
        score (evaluateHeaders asciiInterpreter headerTreeLower (headerValue sentHeaders)
          "headers") :=
  ⟨(evaluateHeaders_ignores_case asciiInterpreter headerTree "headers").1 _ _
      (by unfold OneSpelling; decide +kernel) (by unfold OneSpelling; decide +kernel)
      sameUpToCase_sent,
    (evaluateHeaders_ignores_case asciiInterpreter headerTree "headers").2 _ _
      recased_headerTree⟩

end Headers

end A2aItk.Acts
