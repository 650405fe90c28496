import A2aItk.Acts.Satisfaction
import A2aItk.Acts.PathText

/-!
# Failures are where their paths say

Every failure of an evaluation carries the value that `readPath` finds in the
response under the failure's own path. The invariant of the descent is that the
path so far spells the way from the response to the value at hand.
-/

namespace A2aItk.Acts

open Python Segment

section Reading

/-- The value a path of plain segments leads to. -/
def followAll (value : Option Value) (segments : List Segment) : Option Value :=
  segments.foldl (fun actual segment => actual.bind fun v => segment.follow v) value

/-- The last segment of a path is followed last. -/
theorem followAll_append (value : Option Value) (segments : List Segment) (segment : Segment) :
    followAll value (segments ++ [segment]) =
      (followAll value segments).bind fun v => segment.follow v := by
  simp [followAll]

/-- The first segment of a path is followed first. -/
theorem followAll_cons (value : Value) (segment : Segment) (rest : List Segment) :
    followAll (some value) (segment :: rest) = followAll (segment.follow value) rest := rfl

/-- Nothing is found below what is not there. -/
theorem followAll_none (segments : List Segment) : followAll none segments = none := by
  induction segments with
  | nil => rfl
  | cons segment rest ih => exact ih

/-- A segment without wildcards is just followed. -/
theorem step_of_plain {segment : Segment} (h : segment.Plain) (value : Value) :
    segment.step value = .ok (segment.follow value) := by
  cases segment with
  | wildcard => exact absurd h id
  | _ => rfl

/-- A path of plain segments is just followed. -/
theorem readSegments_of_plain {segments : List Segment}
    (hplain : ∀ segment ∈ segments, segment.Plain) (value : Value) :
    readSegments value segments = .ok (followAll (some value) segments) := by
  induction segments generalizing value with
  | nil => rfl
  | cons segment rest ih =>
      have hrest := ih fun s hs => hplain s (by simp [hs])
      rw [readSegments, step_of_plain (hplain segment (by simp)), ok_bind, followAll_cons]
      cases segment.follow value with
      | none =>
          rw [followAll_none]
          rfl
      | some inner => exact hrest inner

end Reading

section Position

variable {py : Interpreter} {response : Value} {actual : Option Value} {path : Scalar}

/-- The path spells the way from the response to the value. -/
def At (response : Value) (path : Scalar) (actual : Option Value) : Prop :=
  ∃ segments : List Segment, (∀ segment ∈ segments, segment.Plain) ∧
    path = .str (formatPath segments) ∧ followAll (some response) segments = actual

/-- The empty path is at the whole response. -/
theorem at_root (response : Value) : At response (.str "") (some response) :=
  ⟨[], by simp, rfl, rfl⟩

/-- A path that is at a value reads it. -/
theorem At.readPath (h : At response path actual) :
    ∃ text, path = .str text ∧ readPath response text = .ok actual := by
  obtain ⟨segments, hplain, hpath, hfollow⟩ := h
  refine ⟨formatPath segments, hpath, ?_⟩
  rw [Acts.readPath, parsePath_formatPath hplain, ok_bind, readSegments_of_plain hplain, hfollow]

/-- A plain name opens no bracket. -/
theorem not_opens_of_plain {name : String} (h : PlainName name) :
    "[".toList.isPrefixOf name.toList = false := by
  cases hchars : name.toList with
  | nil => rfl
  | cons c rest =>
      have hc := h.2.1 c (by simp [hchars])
      have hne : c ≠ '[' := by
        rintro rfl
        simp [isNameChar] at hc
      simp [List.isPrefixOf, Ne.symm hne]

/-- Joining a part to a rendered path. -/
theorem join_str (out p : String) :
    join py (.str out) (.str p) = .ok (.str
      (if out = "" then p
        else out ++ if "[".toList.isPrefixOf p.toList then p else "." ++ p)) := by
  by_cases hempty : out = ""
  · subst hempty
    rfl
  · have htruthy : (Scalar.str out).truthy = true := decide_eq_true hempty
    rw [join, if_pos htruthy, if_neg hempty]
    rfl

/-- A path that goes on by a field is at that field of the value. -/
theorem At.field (h : At response path actual) {name : String} (hname : PlainName name)
    {joined : Scalar} (hjoin : join py path (.str name) = .ok joined) :
    At response joined (member id actual (.str name)) := by
  obtain ⟨segments, hplain, rfl, hfollow⟩ := h
  refine ⟨segments ++ [.key name], ?_, ?_, ?_⟩
  · simpa [or_imp, forall_and] using ⟨hplain, hname⟩
  · rw [join_str, not_opens_of_plain hname] at hjoin
    rw [formatPath_append, ← Except.ok.inj hjoin]
    by_cases hempty : formatPath segments = ""
    · simp only [if_pos hempty]
    · simp only [if_neg hempty, Bool.false_eq_true, if_false, String.append_assoc]
  · rw [followAll_append, hfollow]
    rfl

/-- A path that goes on by a position is at that element. -/
theorem At.element (h : At response path actual) {elements : List Value}
    (harray : actual.bind Value.array? = some elements) {i : ℕ} {element : Value}
    (helement : elements[i]? = some element) {joined : Scalar}
    (hjoin : join py path (position i) = .ok joined) : At response joined (some element) := by
  obtain ⟨segments, hplain, rfl, hfollow⟩ := h
  refine ⟨segments ++ [.index i], ?_, ?_, ?_⟩
  · simpa [or_imp, forall_and, Segment.Plain] using hplain
  · have hopens : "[".toList.isPrefixOf s!"[{i}]".toList = true := by
      simp [toString, List.isPrefixOf]
    rw [position, join_str, hopens, if_pos rfl] at hjoin
    rw [formatPath_append, ← Except.ok.inj hjoin]
    by_cases hempty : formatPath segments = ""
    · rw [if_pos hempty, hempty]
      rfl
    · rw [if_neg hempty]
      rfl
  · rw [followAll_append, hfollow]
    cases actual with
    | none => cases harray
    | some v =>
        rw [Option.bind_some] at harray
        have hnonneg : ¬(i : ℤ) < 0 := by omega
        simpa [Segment.follow, harray, hnonneg] using helement

end Position

section PlainKeys

/-- A mapping key a path can spell. -/
def PlainKey : Scalar → Prop
  | .str name => PlainName name
  | _ => False

mutual

/-- Every mapping key of the value, at any depth, is one a path can spell. -/
def PlainKeys : Value → Prop
  | .dict entries => PlainEntries entries
  | .list items => PlainItems items
  | .scalar _ => True

/-- The keys of a mapping are plain, all the way down. -/
def PlainEntries : List (Scalar × Value) → Prop
  | [] => True
  | (k, v) :: rest => PlainKey k ∧ PlainKeys v ∧ PlainEntries rest

/-- The keys within a list are plain, item by item. -/
def PlainItems : List Value → Prop
  | [] => True
  | v :: rest => PlainKeys v ∧ PlainItems rest

end

end PlainKeys

section Failures

variable {py : Interpreter} {response argument : Value} {actual : Option Value} {path : Scalar}

/-- Every failure of the result is where its path says. -/
def AllLocated (response : Value) (result : AssertionResult) : Prop :=
  ∀ f ∈ result.failures, At response f.path f.actual

/-- A count has no failure. -/
theorem allLocated_counted (n : ℕ) : AllLocated response (.counted n) := by
  intro f hf
  cases hf

/-- A failure at a value has the path of that value. -/
theorem At.fail (h : At response path actual) (operator : String) (expected : Value)
    (message : String) :
    AllLocated response (.fail path operator expected actual message) := by
  intro f hf
  cases List.mem_singleton.mp hf
  exact h

/-- Failures that are put together stay where they are. -/
theorem AllLocated.add {a b : AssertionResult} (ha : AllLocated response a)
    (hb : AllLocated response b) : AllLocated response (a + b) := by
  intro f hf
  cases List.mem_append.mp hf with
  | inl h => exact ha f h
  | inr h => exact hb f h

/-- Failures of a list of results stay where they are. -/
theorem allLocated_total {results : List AssertionResult}
    (h : ∀ result ∈ results, AllLocated response result) :
    AllLocated response (.total results) := by
  intro f hf
  obtain ⟨result, hmem, hresult⟩ := List.mem_flatMap.mp hf
  exact h result hmem f hresult

/-- A verdict fails at its own path. -/
theorem At.verdictOf (h : At response path actual) (op : Operator) (holds : Bool) :
    AllLocated response (verdictOf py op argument actual path holds) := by
  cases holds with
  | true => exact allLocated_counted 1
  | false => exact h.fail _ _ _

/-- A value that is compared fails at its own path. -/
theorem At.evaluateExact (h : At response path actual) (expected : Value) :
    AllLocated response (evaluateExact py expected actual path) := by
  cases actual with
  | none => exact h.fail _ _ _
  | some v =>
      unfold Acts.evaluateExact
      dsimp only
      split
      · exact allLocated_counted 1
      · exact h.fail _ _ _

/-- A combinator none of whose branches holds fails at its own path. -/
theorem At.anyOfResult (h : At response path actual) (branches : List Value)
    (attempts : List AssertionResult) :
    AllLocated response (anyOfResult py branches actual path attempts) := by
  unfold Acts.anyOfResult
  split
  · exact allLocated_counted 1
  · exact h.fail _ _ _

/-- A negation whose argument holds fails at its own path. -/
theorem At.negationResult (h : At response path actual) (argument : Value)
    (attempt : AssertionResult) :
    AllLocated response (negationResult py argument actual path attempt) := by
  unfold Acts.negationResult
  split
  · exact h.fail _ _ _
  · exact allLocated_counted 1

/-- A leaf operator fails at its own path. -/
theorem At.applyLeaf (h : At response path actual) (op : LeafOperator) :
    Yields (AllLocated response) (applyLeaf py op argument actual path) := by
  unfold Acts.applyLeaf
  split
  · rename_i hmissing
    have hnone : actual = none := by
      cases actual with
      | none => rfl
      | some v => simp at hmissing
    subst hnone
    exact .ok (h.fail _ _ _)
  · have hany : Yields (fun _ => True) (op.holds py argument actual) := fun _ _ => trivial
    exact hany.map fun holds _ => h.verdictOf (.leaf op) holds

/-- The failures of two results in a row are those of each. -/
theorem yields_conjoin {x y : Except Exception AssertionResult}
    (hx : Yields (AllLocated response) x) (hy : Yields (AllLocated response) y) :
    Yields (AllLocated response) (conjoin x y) := by
  apply Yields.bind
  intro a ha
  exact hy.map fun b hb => (hx a ha).add hb

end Failures

section Descent

variable {py : Interpreter} {response : Value}

/-- Evaluated against a value of the response under its own path, the tree reports
located failures. -/
def Locates (py : Interpreter) (response assertion : Value) : Prop :=
  PlainKeys assertion → ∀ (actual : Option Value) (path : Scalar), At response path actual →
    Yields (AllLocated response) (evaluate py id assertion actual path)

/-- Every branch is evaluated at the same path, by induction on the branches. -/
theorem yields_evaluateBranches {branches : List Value}
    (h : ∀ branch ∈ branches, Locates py response branch) (hplain : PlainItems branches)
    {actual : Option Value} {path : Scalar} (hat : At response path actual) :
    Yields (fun attempts => ∀ attempt ∈ attempts, AllLocated response attempt)
      (evaluateBranches py id branches actual path) := by
  induction branches with
  | nil => exact .ok (by simp)
  | cons branch rest ih =>
      rw [evaluateBranches]
      apply Yields.bind
      intro attempt hattempt
      apply Yields.bind
      intro attempts hattempts
      apply Yields.ok
      rw [List.forall_mem_cons]
      exact ⟨h branch (by simp) hplain.1 actual path hat attempt hattempt,
        ih (fun b hb => h b (by simp [hb])) hplain.2 attempts hattempts⟩

/-- By induction on the assertions, the position going along. -/
theorem yields_evaluatePositional {assertions elements : List Value}
    (h : ∀ assertion ∈ assertions, Locates py response assertion)
    (hplain : PlainItems assertions) {i : ℕ} {path : Scalar}
    (hat : ∀ k element, elements[k]? = some element → ∀ joined,
      join py path (position (i + k)) = .ok joined → At response joined (some element)) :
    Yields (AllLocated response) (evaluatePositional py assertions elements i path) := by
  induction assertions generalizing elements i with
  | nil => exact .ok (allLocated_counted 0)
  | cons assertion rest ih =>
      cases elements with
      | nil => exact .ok (allLocated_counted 0)
      | cons element others =>
          rw [evaluatePositional]
          apply yields_conjoin
          · apply Yields.bind
            intro joined hjoined
            exact h assertion (by simp) hplain.1 _ joined (hat 0 element rfl joined hjoined)
          · apply ih (fun a ha => h a (by simp [ha])) hplain.2
            intro k inner hget joined hjoined
            apply hat (k + 1) inner hget joined
            rwa [show i + (k + 1) = i + 1 + k by omega]

/-- A list of assertions, under `items` or by itself. -/
theorem yields_elementsFor {assertions : List Value}
    (h : ∀ assertion ∈ assertions, Locates py response assertion)
    (hplain : PlainItems assertions) {actual : Option Value} {path : Scalar}
    (hat : At response path actual) :
    Yields (AllLocated response)
      (match elementsFor py assertions actual path with
        | .inl failure => pure failure
        | .inr elements => evaluatePositional py assertions elements 0 path) := by
  unfold elementsFor
  cases harray : actual.bind Value.array? with
  | none => exact .ok (hat.fail _ _ _)
  | some elements =>
      dsimp only
      by_cases hlen : elements.length < assertions.length
      · rw [if_pos hlen]
        exact .ok (hat.fail _ _ _)
      · rw [if_neg hlen]
        apply yields_evaluatePositional h hplain
        intro k element hget joined hjoined
        rw [Nat.zero_add] at hjoined
        exact hat.element harray hget hjoined

/-- A mapping under `items`. -/
theorem yields_mapM_elements {entries : List (Scalar × Value)}
    (h : Locates py response (.dict entries)) (hplain : PlainEntries entries)
    {elements : List Value} {path : Scalar}
    (hat : ∀ i element, elements[i]? = some element → ∀ joined,
      join py path (position i) = .ok joined → At response joined (some element)) :
    Yields (fun results => ∀ result ∈ results, AllLocated response result)
      (elements.zipIdx.mapM fun element => do
        evaluateMap py id entries (some element.1) (← join py path (position element.2))) := by
  intro results hresults result hmem
  obtain ⟨⟨element, i⟩, helement, hresult⟩ := exists_left_of_mem (mapM_eq_ok_iff.mp hresults) hmem
  obtain ⟨joined, hjoined, hmap⟩ := bind_eq_ok_iff.mp hresult
  have hget := List.mk_mem_zipIdx_iff_getElem?.mp helement
  apply h hplain (some element) joined (hat i element hget joined hjoined)
  rwa [evaluate]

/-- What holds below a list holds of its items. -/
theorem locates_of_mem {items : List Value}
    (hbelow : Value.Below (Locates py response) (.list items)) :
    ∀ v ∈ items, Locates py response v :=
  fun _ hv => (hbelow.of_mem_list hv).1

/-- One entry after the other: an operator stays at the path, a field goes below it. -/
theorem yields_evaluateMap {node : List (Scalar × Value)} (hplain : PlainEntries node)
    (h : ∀ k argument, (k, argument) ∈ node →
      Locates py response argument ∧ Value.Below (Locates py response) argument)
    {actual : Option Value} {path : Scalar} (hat : At response path actual) :
    Yields (AllLocated response) (evaluateMap py id node actual path) := by
  induction node with
  | nil => exact .ok (allLocated_counted 0)
  | cons entry rest ih =>
      obtain ⟨k, argument⟩ := entry
      obtain ⟨hkey, hargument, hrest⟩ := hplain
      obtain ⟨hlocates, hbelow⟩ := h k argument (by simp)
      unfold evaluateMap
      refine yields_conjoin ?_ (ih hrest fun k a ha => h k a (by simp [ha]))
      cases clause k argument with
      | leaf op hop =>
          simp only [hop]
          exact hat.applyLeaf op
      | oneOf options hop =>
          simp only [hop]
          have hany : Yields (fun _ => True) (evaluateOptions py id options actual) :=
            fun _ _ => trivial
          split
          · rename_i hmissing
            obtain rfl := Option.isNone_iff_eq_none.mp hmissing
            exact .ok (hat.fail _ _ _)
          · exact hany.map fun holds _ => hat.verdictOf .oneOf holds
      | allOf branches hop =>
          simp only [hop]
          have hbranches := yields_evaluateBranches (locates_of_mem hbelow) hargument hat
          exact hbranches.map fun attempts hattempts => allLocated_total hattempts
      | anyOf branches hop =>
          simp only [hop]
          have hbranches := yields_evaluateBranches (locates_of_mem hbelow) hargument hat
          exact hbranches.map fun attempts _ => hat.anyOfResult branches attempts
      | negation hop =>
          simp only [hop]
          have hattempt := hlocates hargument actual path hat
          exact hattempt.map fun attempt _ => hat.negationResult argument attempt
      | positions assertions hop =>
          simp only [hop]
          exact yields_elementsFor (locates_of_mem hbelow) hargument hat
      | elements entries hop =>
          simp only [hop]
          cases harray : actual.bind Value.array? with
          | none => exact .ok (hat.fail _ _ _)
          | some elements =>
              have helements := yields_mapM_elements hlocates hargument
                fun i element hget joined => hat.element harray hget
              exact helements.map fun results hresults => allLocated_total hresults
      | field hop =>
          simp only [hop]
          apply Yields.bind
          intro joined hjoined
          cases k with
          | str name => exact hlocates hargument _ joined (hat.field hkey hjoined)
          | _ => exact absurd hkey id

/-- Every failure of a tree is located, by recursion on the tree. -/
theorem locates (assertion : Value) : Locates py response assertion := by
  induction assertion using Value.induction_below with
  | h assertion hbelow =>
      intro hplain actual path hat
      cases assertion with
      | scalar s => exact .ok (hat.evaluateExact (.scalar s))
      | list assertions =>
          rw [evaluate]
          exact yields_elementsFor (locates_of_mem hbelow) hplain hat
      | dict entries =>
          rw [evaluate]
          exact yields_evaluateMap hplain (fun k argument hmem => hbelow.of_mem_dict hmem) hat

end Descent

section Faithful

variable {py : Interpreter} {tree response : Value} {result : AssertionResult}

/-- Reading the response at a failure's path gives the value the failure carries, or
nothing where it carries none. -/
theorem readPath_of_mem_failures (hplain : PlainKeys tree)
    (h : evaluate py id tree (some response) (.str "") = .ok result) :
    ∀ f ∈ result.failures,
      ∃ path, f.path = .str path ∧ readPath response path = .ok f.actual := by
  intro f hf
  have hlocated := locates tree hplain (some response) (.str "") (at_root response) result h
  exact (hlocated f hf).readPath

/-- A tree with one descent of each kind. -/
def partsTree (text : String) : Value :=
  .object [("task", .object [("parts", .list [.object [("text", .str text)]])])]

/-- The sample has plain keys. -/
theorem plainKeys_partsTree (text : String) : PlainKeys (partsTree text) := by
  have hname (name : String) (hne : name.toList ≠ [])
      (hall : name.toList.all Segment.isNameChar = true)
      (hstrip : Text.strip name.toList = name.toList) : Segment.PlainName name :=
    ⟨hne, List.all_eq_true.mp hall, hstrip⟩
  simp only [partsTree, Value.object, List.map, PlainKeys, PlainEntries, PlainItems, PlainKey,
    and_true]
  exact ⟨hname _ (by decide) (by decide) (by decide),
    hname _ (by decide) (by decide) (by decide), hname _ (by decide) (by decide) (by decide)⟩

theorem readPath_of_mem_failures_partsTree :
    ∃ result, evaluate .plain id (partsTree "b") (some (partsTree "a")) (.str "") = .ok result ∧
      result.failures.map Failure.path = [.str "task.parts[0].text"] ∧
      ∀ f ∈ result.failures,
        ∃ path, f.path = .str path ∧ readPath (partsTree "a") path = .ok f.actual :=
  ⟨_, rfl, rfl, readPath_of_mem_failures (plainKeys_partsTree "b") rfl⟩

end Faithful

end A2aItk.Acts
