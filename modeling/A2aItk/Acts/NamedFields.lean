import A2aItk.Acts.Agreement

/-!
# Fields an assertion names

The field paths a tree names by nesting, and what an evaluation without failures
says about them: that they exist in the response, and that something was compared.

## Implementation notes

Nesting goes through field entries, the branches of `all_of` and lists that are
matched by position. `not`, `any_of`, `one_of` and a mapping under `items` end it.
-/

namespace A2aItk.Acts

open Python

/-- One step into a value. -/
inductive Hop
  | field (key : Scalar)
  | element (i : ℕ)

/-- The value one step further in. -/
def Hop.follow (actual : Option Value) : Hop → Option Value
  | field key => member id actual key
  | element i => (actual.bind Value.array?).bind fun elements => elements[i]?

/-- The value at the end of a path. -/
def reach (actual : Option Value) (hops : List Hop) : Option Value :=
  hops.foldl Hop.follow actual

/-- The tree names the field at the end of the path and puts an assertion on it. -/
inductive Names : Value → List Hop → Value → Prop
  | field {entries : List (Scalar × Value)} {key : Scalar} {argument : Value}
      (hmem : (key, argument) ∈ entries) (hfield : operator? key argument = none) :
      Names (.dict entries) [.field key] argument
  | nested {entries : List (Scalar × Value)} {key : Scalar} {argument assertion : Value}
      {hops : List Hop} (hmem : (key, argument) ∈ entries)
      (hfield : operator? key argument = none) (h : Names argument hops assertion) :
      Names (.dict entries) (.field key :: hops) assertion
  | branch {entries : List (Scalar × Value)} {key : Scalar} {branches : List Value}
      {branch assertion : Value} {hops : List Hop} (hmem : (key, .list branches) ∈ entries)
      (hop : operator? key (.list branches) = some .allOf) (hbranch : branch ∈ branches)
      (h : Names branch hops assertion) : Names (.dict entries) hops assertion
  | item {entries : List (Scalar × Value)} {key : Scalar} {assertions : List Value} {i : ℕ}
      {element assertion : Value} {hops : List Hop} (hmem : (key, .list assertions) ∈ entries)
      (hop : operator? key (.list assertions) = some .items)
      (hget : assertions[i]? = some element) (h : Names element hops assertion) :
      Names (.dict entries) (.element i :: hops) assertion
  | position {assertions : List Value} {i : ℕ} {element assertion : Value} {hops : List Hop}
      (hget : assertions[i]? = some element) (h : Names element hops assertion) :
      Names (.list assertions) (.element i :: hops) assertion

/-- The assertion on a field carries `exists` or `absent`. -/
def carriesPresence (assertion : Value) : Bool :=
  match assertion with
  | .dict entries => entries.any fun entry =>
      operator? entry.1 entry.2 = some (.leaf .present) ||
        operator? entry.1 entry.2 = some (.leaf .absent)
  | _ => false

/-- The path is one the tree requires of a response. -/
def RequiredBy (tree : Value) (hops : List Hop) : Prop :=
  ∃ assertion, Names tree hops assertion ∧ carriesPresence assertion = false

section Satisfied

variable (py : Interpreter)

/-- A missing value satisfies the assertion: it is empty, or all it says is said by
presence operators and negations further down. -/
def toleratesAbsence (assertion : Value) : Bool := satisfies py id assertion none

/-- What one entry of a mapping asks of the value. -/
def satisfiesEntry (fold : Scalar → Scalar) (actual : Option Value) (key : Scalar)
    (argument : Value) : Bool :=
  satisfiesMap py fold [(key, argument)] actual

variable {py}

theorem satisfiesMap_cons (fold : Scalar → Scalar) (actual : Option Value) (key : Scalar)
    (argument : Value) (rest : List (Scalar × Value)) :
    satisfiesMap py fold ((key, argument) :: rest) actual =
      (satisfiesEntry py fold actual key argument && satisfiesMap py fold rest actual) := by
  conv_lhs => unfold satisfiesMap
  conv_rhs =>
    arg 1
    unfold satisfiesEntry satisfiesMap
  rw [satisfiesMap, Bool.and_true]

theorem satisfiesEntry_of_mem {fold : Scalar → Scalar} {actual : Option Value}
    {node : List (Scalar × Value)} (h : satisfiesMap py fold node actual = true) {key : Scalar}
    {argument : Value} (hmem : (key, argument) ∈ node) :
    satisfiesEntry py fold actual key argument = true := by
  induction node with
  | nil => simp at hmem
  | cons entry rest ih =>
      obtain ⟨hentry, hrest⟩ := Bool.and_eq_true_iff.mp (satisfiesMap_cons .. ▸ h)
      cases List.mem_cons.mp hmem with
      | inl heq =>
          cases heq
          exact hentry
      | inr hin => exact ih hrest hin

theorem satisfies_of_mem_all {fold : Scalar → Scalar} {actual : Option Value}
    {branches : List Value} (h : satisfiesAll py fold branches actual = true) {branch : Value}
    (hmem : branch ∈ branches) : satisfies py fold branch actual = true := by
  induction branches with
  | nil => simp at hmem
  | cons first rest ih =>
      rw [satisfiesAll] at h
      obtain ⟨hfirst, hrest⟩ := Bool.and_eq_true_iff.mp h
      cases List.mem_cons.mp hmem with
      | inl heq => exact heq ▸ hfirst
      | inr hin => exact ih hrest hin

theorem satisfies_of_getElem? {assertions elements : List Value}
    (h : satisfiesPositions py assertions elements = true) {i : ℕ} {assertion element : Value}
    (hassertion : assertions[i]? = some assertion) (helement : elements[i]? = some element) :
    satisfies py id assertion (some element) = true := by
  induction assertions generalizing elements i with
  | nil => simp at hassertion
  | cons first rest ih =>
      cases elements with
      | nil => simp at helement
      | cons head others =>
          rw [satisfiesPositions] at h
          obtain ⟨hfirst, hrest⟩ := Bool.and_eq_true_iff.mp h
          cases i with
          | zero =>
              cases Option.some.inj hassertion
              cases Option.some.inj helement
              exact hfirst
          | succ i => exact ih hrest hassertion helement

/-- A list of assertions that is satisfied finds an element for each. -/
theorem satisfies_follow_element {assertions : List Value} {actual : Option Value}
    (h : ((actual.bind Value.array?).any fun elements =>
      assertions.length ≤ elements.length && satisfiesPositions py assertions elements) = true)
    {i : ℕ} {assertion : Value} (hget : assertions[i]? = some assertion) :
    satisfies py id assertion (Hop.follow actual (.element i)) = true := by
  obtain ⟨elements, harray, helements⟩ := (Option.any_eq_true ..).mp h
  simp only [Bool.and_eq_true, decide_eq_true_eq] at helements
  have hlt : i < elements.length := by
    have := (List.getElem?_eq_some_iff.mp hget).1
    omega
  rw [Hop.follow, harray, Option.bind_some, List.getElem?_eq_getElem hlt]
  exact satisfies_of_getElem? helements.2 hget (List.getElem?_eq_getElem hlt)

/-- What a tree says of a field it names, it says of the value at that path. -/
theorem satisfies_of_names {tree assertion : Value} {hops : List Hop}
    (hnames : Names tree hops assertion) {actual : Option Value}
    (h : satisfies py id tree actual = true) :
    satisfies py id assertion (reach actual hops) = true := by
  induction hnames generalizing actual with
  | field hmem hfield =>
      rw [satisfies] at h
      have hentry := satisfiesEntry_of_mem h hmem
      simpa [satisfiesEntry, satisfiesMap, hfield, reach, Hop.follow] using hentry
  | nested hmem hfield _ ih =>
      rw [satisfies] at h
      have hentry := satisfiesEntry_of_mem h hmem
      apply ih
      simpa [satisfiesEntry, satisfiesMap, hfield, Hop.follow] using hentry
  | branch hmem hop hbranch _ ih =>
      rw [satisfies] at h
      have hentry := satisfiesEntry_of_mem h hmem
      apply ih
      apply satisfies_of_mem_all _ hbranch
      simpa [satisfiesEntry, satisfiesMap, hop] using hentry
  | item hmem hop hget _ ih =>
      rw [satisfies] at h
      have hentry := satisfiesEntry_of_mem h hmem
      apply ih
      apply satisfies_follow_element _ hget
      simpa only [satisfiesEntry, satisfiesMap, hop, Bool.and_true] using hentry
  | position hget _ ih =>
      rw [satisfies] at h
      apply ih
      exact satisfies_follow_element h hget

end Satisfied

section Required

variable {py : Interpreter} {tree response : Value} {result : AssertionResult}

theorem reports_of_evaluate {actual : Option Value} {path : Scalar}
    (h : evaluate py id tree actual path = .ok result) :
    Reports (satisfies py id tree actual) (compares id tree actual) result :=
  (agrees tree id actual path).of_eq_ok h

/-- Of an evaluation without failures: every required field exists in the response,
and one at least was compared, exactly when the required fields that a missing value
would satisfy do exist and the tree compares something. -/
theorem required_fields_iff (path : Scalar)
    (h : evaluate py id tree (some response) path = .ok result) (hok : result.ok = true) :
    ((∀ hops, RequiredBy tree hops → (reach (some response) hops).isSome = true) ∧
        ((∃ hops, RequiredBy tree hops) → 0 < result.checks)) ↔
      ((∀ hops assertion, Names tree hops assertion → carriesPresence assertion = false →
          toleratesAbsence py assertion = true → (reach (some response) hops).isSome = true) ∧
        ((∃ hops, RequiredBy tree hops) → compares id tree (some response) = true)) := by
  have hreports := reports_of_evaluate h
  have hsatisfied : satisfies py id tree (some response) = true := hreports.ok ▸ hok
  have hchecks : 0 < result.checks ↔ compares id tree (some response) = true := by
    rw [← hreports.checks hsatisfied, decide_eq_true_iff]
  rw [hchecks]
  apply and_congr_left'
  constructor
  · intro hexists hops assertion hnames hcarries _
    exact hexists hops ⟨assertion, hnames, hcarries⟩
  · rintro htolerant hops ⟨assertion, hnames, hcarries⟩
    have hholds := satisfies_of_names hnames hsatisfied
    cases hreach : reach (some response) hops with
    | some v => rfl
    | none =>
        rw [hreach] at hholds
        rw [← hreach]
        exact htolerant hops assertion hnames hcarries hholds

/-- A tree of one exact value, on a response that has it. -/
def statusTree : Value := .object [("status", .object [("state", .str "done")])]

theorem required_fields_iff_statusTree :
    evaluate .plain id statusTree (some statusTree) (.str "") = .ok (.counted 1) ∧
      (((∀ hops, RequiredBy statusTree hops → (reach (some statusTree) hops).isSome = true) ∧
          ((∃ hops, RequiredBy statusTree hops) → 0 < (AssertionResult.counted 1).checks)) ↔
        ((∀ hops assertion, Names statusTree hops assertion →
            carriesPresence assertion = false → toleratesAbsence .plain assertion = true →
            (reach (some statusTree) hops).isSome = true) ∧
          ((∃ hops, RequiredBy statusTree hops) →
            compares id statusTree (some statusTree) = true))) :=
  ⟨rfl, required_fields_iff (.str "") rfl rfl⟩

/-- An empty mapping under a field: the response lacks the field, nothing is
compared, and there is no failure. -/
theorem empty_assertion_passes :
    ∃ result, evaluate .plain id (.object [("a", .object [])]) (some (.object [])) (.str "") =
        .ok result ∧ result.ok = true ∧
      RequiredBy (.object [("a", .object [])]) [.field (.str "a")] ∧
      (reach (some (.object [])) [.field (.str "a")]).isSome = false ∧ result.checks = 0 :=
  ⟨.pass, rfl, rfl, ⟨.object [], .field (by simp) (by decide), rfl⟩, rfl, rfl⟩

end Required

end A2aItk.Acts
