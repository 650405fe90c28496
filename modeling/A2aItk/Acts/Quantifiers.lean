import A2aItk.Acts.Agreement
import A2aItk.Acts.Expectations
import A2aItk.Acts.PathInstances

/-!
# Collection quantifiers

The three modes of a collection assertion read the same outcomes, one for every place
the path reaches. So `any` and `none` are opposites, `all` is the stronger of the two
that inspect something, and `any` is a search among the instances of the path.
-/

namespace A2aItk.Acts

open Python Segment

section Outcomes

variable (py : Interpreter) (pattern : CollectionMatch)

/-- The match tree at one place. -/
def outcomeAt (path : Scalar) (place : String × Option Value) :
    Except Exception (String × AssertionResult) := do
  let located ← join py path (.str place.1)
  let outcome ← evaluateMap py id (Fields.entries pattern.pattern) place.2 located
  pure (place.1, outcome)

/-- What a mode asks of the outcomes. -/
def Quantifier.holds (outcomes : List (String × AssertionResult)) : Quantifier → Bool
  | any => outcomes.any fun outcome => outcome.2.ok
  | all => !outcomes.isEmpty && outcomes.all fun outcome => outcome.2.ok
  | noneOf => !outcomes.any fun outcome => outcome.2.ok

theorem isEmpty_passed (outcomes : List (String × AssertionResult)) :
    ((outcomes.filter fun outcome => outcome.2.ok).map Prod.fst).isEmpty =
      !outcomes.any fun outcome => outcome.2.ok := by
  induction outcomes with
  | nil => rfl
  | cons outcome rest ih =>
      rw [List.filter_cons, List.any_cons]
      cases outcome.2.ok with
      | true => rfl
      | false => simpa using ih

theorem isEmpty_failures (outcomes : List (String × AssertionResult)) :
    (outcomes.flatMap fun outcome => outcome.2.failures).isEmpty =
      outcomes.all fun outcome => outcome.2.ok := by
  induction outcomes with
  | nil => rfl
  | cons outcome rest ih =>
      rw [List.flatMap_cons, List.all_cons, ← ih, AssertionResult.ok]
      cases outcome.2.failures <;> simp

/-- The result is ok when the outcomes, at least one of them, are what the mode asks. -/
theorem ok_quantified (mode : Quantifier) (base : Scalar)
    {outcomes : List (String × AssertionResult)} (h : outcomes ≠ []) :
    (quantified pattern mode base outcomes).ok = mode.holds outcomes := by
  have hne : outcomes.isEmpty = false := by simpa using h
  have hany := isEmpty_passed outcomes
  have hall := isEmpty_failures outcomes
  cases mode with
  | any =>
      rw [quantified, Quantifier.holds]
      cases hfound : outcomes.any fun outcome => outcome.2.ok with
      | true => simp [hany, hfound]
      | false => simp [hany, hfound]
  | noneOf =>
      rw [quantified, Quantifier.holds]
      cases hfound : outcomes.any fun outcome => outcome.2.ok with
      | true => simp [hany, hfound]
      | false => simp [hany, hfound]
  | all =>
      rw [quantified, Quantifier.holds, hne, ← hall]
      cases hfound : (outcomes.flatMap fun outcome => outcome.2.failures).isEmpty with
      | true => simp
      | false => simp [hfound, AssertionResult.ok]

theorem join_str_ok (path : Scalar) (text : String) :
    ∃ joined, join py path (.str text) = .ok joined := by
  unfold join
  split
  · exact ⟨_, rfl⟩
  · exact ⟨_, rfl⟩

theorem holds_any_of_all {outcomes : List (String × AssertionResult)}
    (h : Quantifier.all.holds outcomes = true) : Quantifier.any.holds outcomes = true := by
  cases outcomes with
  | nil => cases h
  | cons outcome rest =>
      simp only [Quantifier.holds, List.all_cons, Bool.and_eq_true] at h
      simp [Quantifier.holds, h.2.1]

/-- Every mode evaluates the match tree at the places reached, and reads the outcomes. -/
theorem evaluateCollection_ok (mode : Quantifier) {source : Option Value} (path : Scalar)
    {reached : List (String × Option Value)} (h : reachAll source pattern.path = .ok reached) :
    AssertionResult.ok <$> evaluateCollection py pattern mode source path =
      (fun outcomes => mode.holds outcomes) <$> reached.mapM (outcomeAt py pattern path) := by
  obtain ⟨base, hbase⟩ := join_str_ok py path pattern.path
  unfold evaluateCollection
  rw [h, ok_bind, hbase, ok_bind]
  cases reached with
  | nil => cases mode <;> rfl
  | cons place rest =>
      rw [List.isEmpty_cons, if_neg Bool.false_ne_true]
      change _ <$> ((place :: rest).mapM (outcomeAt py pattern path) >>= fun outcomes =>
        pure (quantified pattern mode base outcomes)) = _
      cases houtcomes : (place :: rest).mapM (outcomeAt py pattern path) with
      | error e => rfl
      | ok outcomes =>
          have hne : outcomes ≠ [] := by
            rintro rfl
            cases mapM_eq_ok_iff.mp houtcomes
          exact congrArg Except.ok (ok_quantified pattern mode base hne)

end Outcomes

section Instances

variable {segments concrete : List Segment}

/-- The path with every name behind a dot, so that no whitespace of a name is lost. -/
def spell (segments : List Segment) : String := String.ofList (segments.flatMap Segment.tail)

theorem parsePath_spell (hlexical : ∀ segment ∈ segments, segment.Lexical)
    (hlast : ∀ segment ∈ segments.getLast?, segment.EndsFull) :
    parsePath (spell segments) = .ok segments := by
  have hhead : ∀ c ∈ (segments.flatMap Segment.tail).head?, Text.isSpace c = false :=
    fun c hc => not_isSpace_of_not_isNameChar (head_tails segments c hc)
  rw [parsePath, spell, String.toList_ofList,
    Text.strip_eq_self hhead (getLast_tails hlexical hlast)]
  exact parseSegments_tails hlexical

/-- What holds of every index, an instance takes over from what was written. -/
theorem Segment.Instantiates.takesOver {written concrete : Segment} {P : Segment → Prop}
    (hindex : ∀ i, P (.index i)) (h : written.Instantiates concrete) (hwritten : P written) :
    P concrete := by
  cases written with
  | wildcard =>
      obtain ⟨i, rfl⟩ := h
      exact hindex i
  | _ =>
      obtain rfl := h
      exact hwritten

theorem Instance.lexical (h : Instance segments concrete)
    (hlexical : ∀ segment ∈ segments, segment.Lexical) :
    ∀ segment ∈ concrete, segment.Lexical := by
  intro segment hsegment
  obtain ⟨written, hwritten, hinst⟩ := exists_left_of_mem h hsegment
  exact hinst.takesOver (fun _ => trivial) (hlexical written hwritten)

theorem Instance.endsFull (h : Instance segments concrete)
    (hlast : ∀ segment ∈ segments.getLast?, segment.EndsFull) :
    ∀ segment ∈ concrete.getLast?, segment.EndsFull := by
  induction h with
  | nil => exact hlast
  | cons hhead htail ih =>
      cases htail with
      | nil =>
          intro segment hsegment
          cases hsegment
          exact hhead.takesOver (fun _ => trivial) (hlast _ rfl)
      | cons hnext hothers =>
          rw [List.getLast?_cons_cons] at hlast ⊢
          exact ih hlast

/-- An instance of a path that parses can be written down. -/
theorem Instance.parsePath_spell {path : String} (hparse : parsePath path = .ok segments)
    (h : Instance segments concrete) : parsePath (spell concrete) = .ok concrete :=
  Acts.parsePath_spell (h.lexical (Tiles.of_parsePath hparse).lexical)
    (h.endsFull (endsFull_of_parsePath hparse))

end Instances

section Coherence

variable {py : Interpreter} {pattern : CollectionMatch} {source : Option Value} {path : Scalar}

/-- The match tree holds on the value. -/
def CollectionMatch.HoldsOn (py : Interpreter) (pattern : CollectionMatch) (v : Value) : Prop :=
  ∃ (located : Scalar) (result : AssertionResult),
    evaluateMap py id (Fields.entries pattern.pattern) (some v) located = .ok result ∧
      result.ok = true

/-- Whether a collection assertion in the mode is ok. -/
def collectionOk (py : Interpreter) (pattern : CollectionMatch) (source : Option Value)
    (path : Scalar) (mode : Quantifier) : Except Exception Bool :=
  AssertionResult.ok <$> evaluateCollection py pattern mode source path

theorem outcomeAt_eq_ok {place : String × Option Value} {outcome : String × AssertionResult}
    (h : outcomeAt py pattern path place = .ok outcome) :
    ∃ located, evaluateMap py id (Fields.entries pattern.pattern) place.2 located =
      .ok outcome.2 := by
  obtain ⟨located, -, h⟩ := bind_eq_ok_iff.mp h
  obtain ⟨result, hresult, h⟩ := bind_eq_ok_iff.mp h
  obtain rfl := Except.ok.inj h
  exact ⟨located, hresult⟩

/-- Two evaluations of one tree on one value agree, wherever they report. -/
theorem evaluateMap_ok_eq {entries : List (Scalar × Value)} {v : Option Value}
    {located located' : Scalar} {a b : AssertionResult}
    (ha : evaluateMap py id entries v located = .ok a)
    (hb : evaluateMap py id entries v located' = .ok b) : a.ok = b.ok := by
  have htree : Agrees py (.dict entries) := agrees _
  have hagrees := htree.map id v
  exact ((hagrees located).of_eq_ok ha).ok.trans ((hagrees located').of_eq_ok hb).ok.symm

/-- Some outcome is ok exactly when the tree holds on some value that was reached. -/
theorem any_outcome_iff {reached : List (String × Value)}
    {outcomes : List (String × AssertionResult)}
    (h : (reached.map fun place => (place.1, some place.2)).mapM (outcomeAt py pattern path) =
      .ok outcomes) :
    (outcomes.any fun outcome => outcome.2.ok) = true ↔
      ∃ place ∈ reached, pattern.HoldsOn py place.2 := by
  have hall := mapM_eq_ok_iff.mp h
  rw [List.any_eq_true]
  constructor
  · rintro ⟨outcome, houtcome, hok⟩
    obtain ⟨place, hplace, heval⟩ := exists_left_of_mem hall houtcome
    obtain ⟨origin, horigin, rfl⟩ := List.mem_map.mp hplace
    obtain ⟨located, hlocated⟩ := outcomeAt_eq_ok heval
    exact ⟨origin, horigin, located, outcome.2, hlocated, hok⟩
  · rintro ⟨place, hplace, located, result, hresult, hok⟩
    obtain ⟨outcome, houtcome, heval⟩ :=
      exists_left_of_mem hall.flip (List.mem_map_of_mem (f := fun p => (p.1, some p.2)) hplace)
    obtain ⟨located', hlocated'⟩ := outcomeAt_eq_ok heval
    exact ⟨outcome, houtcome, (evaluateMap_ok_eq hlocated' hresult).trans hok⟩

/-- What the path reaches from a value that is there. -/
theorem reachAll_some {value : Value} {segments : List Segment}
    (hparse : parsePath pattern.path = .ok segments) :
    reachAll (some value) pattern.path = .ok
      (((places value segments).map fun place => (formatPath place.1, place.2)).map
        fun place => (place.1, some place.2)) := by
  rw [reachAll, readPathAll, hparse, ok_bind, walk_eq_places]
  rfl

/-- A value was reached exactly when an instance of the path reads it. -/
theorem reached_iff {value v : Value} {segments : List Segment}
    (hparse : parsePath pattern.path = .ok segments) :
    (∃ place ∈ (places value segments).map fun place => (formatPath place.1, place.2),
        place.2 = v) ↔
      ∃ p concrete, parsePath p = .ok concrete ∧ Instance segments concrete ∧
        readPath value p = .ok (some v) := by
  constructor
  · rintro ⟨_, hmem, rfl⟩
    obtain ⟨⟨concrete, w⟩, hplace, rfl⟩ := List.mem_map.mp hmem
    obtain ⟨hinst, hread⟩ := mem_places.mp hplace
    refine ⟨spell concrete, concrete, hinst.parsePath_spell hparse, hinst, ?_⟩
    rwa [readPath, hinst.parsePath_spell hparse]
  · rintro ⟨p, concrete, hp, hinst, hread⟩
    rw [readPath, hp] at hread
    exact ⟨(formatPath concrete, v), List.mem_map.mpr ⟨_, mem_places.mpr ⟨hinst, hread⟩, rfl⟩, rfl⟩

/-- `any` and `none` are opposites, `all` implies `any`, and `any` is ok exactly when an
instance of the path reads a value on which the match tree holds. Nothing is read from a
missing value, so there the path has to have a wildcard. -/
theorem quantifiers_coherent (py : Interpreter) (pattern : CollectionMatch)
    (source : Option Value) (path : Scalar) {segments : List Segment}
    (hparse : parsePath pattern.path = .ok segments) :
    collectionOk py pattern source path .any =
        (fun ok => !ok) <$> collectionOk py pattern source path .noneOf ∧
      (collectionOk py pattern source path .all = .ok true →
        collectionOk py pattern source path .any = .ok true) ∧
      ∀ ok, collectionOk py pattern source path .any = .ok ok →
        source.isSome ∨ Segment.wildcard ∈ segments →
        (ok = true ↔ ∃ p concrete value v, parsePath p = .ok concrete ∧
          Instance segments concrete ∧ source = some value ∧
          readPath value p = .ok (some v) ∧ pattern.HoldsOn py v) := by
  have hreach : ∃ reached, reachAll source pattern.path = .ok reached := by
    cases source with
    | some value => exact ⟨_, reachAll_some hparse⟩
    | none => exact ⟨_, by rw [reachAll, hparse]; rfl⟩
  obtain ⟨reached, hreached⟩ := hreach
  have hmode (mode : Quantifier) := evaluateCollection_ok py pattern mode path hreached
  unfold collectionOk
  rw [hmode .any, hmode .noneOf, hmode .all]
  cases houtcomes : reached.mapM (outcomeAt py pattern path) with
  | error e =>
      refine ⟨rfl, ?_, ?_⟩
      · intro hall
        cases hall
      · intro ok hok
        cases hok
  | ok outcomes =>
      refine ⟨congrArg Except.ok (Bool.not_not _).symm, ?_, ?_⟩
      · intro hall
        exact congrArg Except.ok (holds_any_of_all (Except.ok.inj hall))
      · intro ok hok hsource
        obtain rfl : (outcomes.any fun outcome => outcome.2.ok) = ok := Except.ok.inj hok
        cases source with
        | some value =>
            obtain rfl := Except.ok.inj (hreached.symm.trans (reachAll_some hparse))
            rw [any_outcome_iff houtcomes]
            constructor
            · rintro ⟨place, hplace, hholds⟩
              obtain ⟨p, concrete, hp, hinst, hread⟩ := (reached_iff hparse).mp ⟨place, hplace, rfl⟩
              exact ⟨p, concrete, value, place.2, hp, hinst, rfl, hread, hholds⟩
            · rintro ⟨p, concrete, _, v, hp, hinst, hvalue, hread, hholds⟩
              obtain rfl := Option.some.inj hvalue
              obtain ⟨place, hplace, rfl⟩ :=
                (reached_iff hparse).mpr ⟨p, concrete, hp, hinst, hread⟩
              exact ⟨place, hplace, hholds⟩
        | none =>
            have hwildcard : Segment.wildcard ∈ segments := by simpa using hsource
            have hempty : segments.isEmpty = false := by
              cases segments with
              | nil => cases hwildcard
              | cons first rest => rfl
            rw [reachAll, hparse, ok_bind, hempty] at hreached
            obtain rfl := Except.ok.inj hreached
            obtain rfl := Except.ok.inj houtcomes
            simp

/-- Some text starts with an `a`. -/
def startsWithA : CollectionMatch where
  path := "artifacts[*].parts[*]"
  pattern := [("starts_with", .str "a")]

theorem quantifiers_coherent_twoArtifacts :
    collectionOk .plain startsWithA (some twoArtifacts) (.str "") .any = .ok true ∧
      ∃ p concrete value v, parsePath p = .ok concrete ∧
        Instance [.key "artifacts", .wildcard, .key "parts", .wildcard] concrete ∧
        some twoArtifacts = some value ∧ readPath value p = .ok (some v) ∧
        startsWithA.HoldsOn .plain v := by
  have hparse : parsePath startsWithA.path =
      .ok [.key "artifacts", .wildcard, .key "parts", .wildcard] := rfl
  have hplaces : places twoArtifacts [.key "artifacts", .wildcard, .key "parts", .wildcard] =
      [([.key "artifacts", .index 0, .key "parts", .index 0], .str "a"),
        ([.key "artifacts", .index 0, .key "parts", .index 1], .str "b")] := rfl
  have hany : collectionOk .plain startsWithA (some twoArtifacts) (.str "") .any = .ok true := by
    rw [collectionOk, evaluateCollection_ok .plain startsWithA .any _ (reachAll_some hparse),
      hplaces]
    rfl
  have hcoherent := quantifiers_coherent .plain startsWithA (some twoArtifacts) (.str "") hparse
  exact ⟨hany, (hcoherent.2.2 true hany (.inl rfl)).mp rfl⟩

end Coherence

end A2aItk.Acts
