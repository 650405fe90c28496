import A2aItk.Acts.Transcripts
import Mathlib.Data.List.MinMax
import Mathlib.Order.Nat

/-!
# The bounds of a stream

How many events the assertions about a stream ask for, and how many the runner keeps.
The schema refuses some of the blocks that no stream can meet, and accepts others.
-/

namespace A2aItk.Acts

open Python

/-- The position of the event the assertion is about, where it names one. -/
def EventAssertion.required (assertion : EventAssertion) (position : ℕ) : Option ℕ :=
  if assertion.body.isEmpty then none
  else
    match assertion.index, assertion.position with
    | some index, _ => some index
    | none, some .anyPosition => none
    | none, _ => some position

namespace StreamAssertions

variable (a : StreamAssertions)

/-- The positions of the events that must be there. -/
def requiredPositions : List ℕ :=
  (a.events.getD []).zipIdx.filterMap fun entry => entry.1.required entry.2

/-- So many events satisfy the counts, and include those at every required position. -/
structure CountsHold (count : ℕ) : Prop where
  enough : ∀ low ∈ a.minCount, low ≤ count
  notTooMany : ∀ high ∈ a.maxCount, count ≤ high
  present : ∀ index ∈ a.requiredPositions, index < count

/-- What the number of events must reach. -/
def lowerBounds : List ℕ := a.minCount.toList ++ a.requiredPositions.map (· + 1)

theorem countsHold_iff {count : ℕ} :
    a.CountsHold count ↔
      (∀ low ∈ a.lowerBounds, low ≤ count) ∧ ∀ high ∈ a.maxCount, count ≤ high := by
  simp only [lowerBounds, List.mem_append, List.mem_map, Option.mem_toList]
  constructor
  · intro h
    refine ⟨?_, h.notTooMany⟩
    rintro low (hlow | ⟨index, hindex, rfl⟩)
    · exact h.enough low hlow
    · exact h.present index hindex
  · rintro ⟨hlow, hhigh⟩
    refine ⟨fun low hmem => hlow low (.inl hmem), hhigh, fun index hindex => ?_⟩
    exact hlow (index + 1) (.inr ⟨index, hindex, rfl⟩)

end StreamAssertions

section Evaluation

variable {py : Interpreter} {a : StreamAssertions} {events : List StreamedEvent}

/-- An assertion about one event does not hold where there is no such event. -/
theorem present_of_clean {assertion : EventAssertion} {position index : ℕ}
    (hrequired : assertion.required position = some index)
    (h : Clean (evaluateEventAssertion py assertion position events)) :
    index < events.length := by
  by_contra habsent
  have hnone : events[index]? = none := List.getElem?_eq_none (Nat.not_lt.mp habsent)
  obtain ⟨result, hresult, hclean⟩ := h
  rw [EventAssertion.required] at hrequired
  rw [evaluateEventAssertion] at hresult
  cases hbody : assertion.body.isEmpty with
  | true => simp [hbody] at hrequired
  | false =>
      simp only [hbody] at hrequired hresult
      cases hindex : assertion.index with
      | some written =>
          simp only [hindex] at hrequired hresult
          obtain rfl : written = index := Option.some.inj hrequired
          simp only [hnone] at hresult
          cases hresult
          cases hclean
      | none =>
          cases hmatch : assertion.position with
          | none =>
              simp only [hindex, hmatch] at hrequired hresult
              obtain rfl : position = index := Option.some.inj hrequired
              simp only [hnone] at hresult
              cases hresult
              cases hclean
          | some mode =>
              cases mode with
              | anyPosition => simp [hindex, hmatch] at hrequired
              | exactPosition =>
                  simp only [hindex, hmatch] at hrequired hresult
                  obtain rfl : position = index := Option.some.inj hrequired
                  simp only [hnone] at hresult
                  cases hresult
                  cases hclean

/-- The result of a stream adds up what its checks found, in their order. One that was
still open is a failure. -/
theorem evaluateStream_eq_ok {timedOut : Bool} {result : AssertionResult}
    (h : evaluateStream py a events timedOut = .ok result) :
    ∃ (late ordered final every : AssertionResult) (each : List AssertionResult),
      (late.failures = [] → timedOut = false) ∧
      ((a.events.getD []).zipIdx.mapM fun entry =>
        evaluateEventAssertion py entry.1 entry.2 events) = .ok each ∧
      result = late +
        (a.minCount.elim .pass fun low =>
          if events.length < low then
            streamFailure "stream" "min_count" (.int low) (some (.int events.length))
              s!"expected at least {low} event(s), got {events.length}"
          else .counted 1) +
        (a.maxCount.elim .pass fun high =>
          if high < events.length then
            streamFailure "stream" "max_count" (.int high) (some (.int events.length))
              s!"expected at most {high} event(s), got {events.length}"
          else .counted 1) + ordered + .total each + final + every := by
  unfold evaluateStream at h
  dsimp only at h
  obtain ⟨each, heach, h⟩ := bind_eq_ok_iff.mp h
  -- whether or not they are declared, the last event and every event are judged in turn
  split at h
  all_goals
    obtain ⟨final, -, h⟩ := bind_eq_ok_iff.mp h
    split at h
    all_goals
      obtain ⟨every, -, h⟩ := bind_eq_ok_iff.mp h
      cases h
      refine ⟨_, _, _, _, each, ?_, heach, rfl⟩
      cases timedOut <;> simp [streamFailure, AssertionResult.fail]

/-- A stream that is judged without a failure was read to its end, and its events are all
that was judged. -/
theorem completed_of_clean {timedOut : Bool}
    (h : Clean (evaluateStream py a events timedOut)) :
    timedOut = false ∧ Clean (evaluateStream py a events false) := by
  obtain ⟨result, hresult, hclean⟩ := h
  have hcompleted : timedOut = false := by
    obtain ⟨late, ordered, final, every, each, hlate, -, rfl⟩ := evaluateStream_eq_ok hresult
    apply hlate
    simp only [AssertionResult.failures_add, List.append_eq_nil_iff] at hclean
    exact hclean.1.1.1.1.1.1
  subst hcompleted
  exact ⟨rfl, result, hresult, hclean⟩

/-- Assertions that hold of a stream hold of its number of events. -/
theorem countsHold_of_clean {timedOut : Bool}
    (h : Clean (evaluateStream py a events timedOut)) : a.CountsHold events.length := by
  obtain ⟨result, hresult, hclean⟩ := h
  obtain ⟨late, ordered, final, every, each, -, heach, rfl⟩ := evaluateStream_eq_ok hresult
  simp only [AssertionResult.failures_add, List.append_eq_nil_iff] at hclean
  obtain ⟨⟨⟨⟨⟨⟨-, hfew⟩, hmany⟩, -⟩, heachClean⟩, -⟩, -⟩ := hclean
  refine ⟨fun low hlow => ?_, fun high hhigh => ?_, fun index hindex => ?_⟩
  · by_contra hcount
    rw [Option.mem_def.mp hlow, Option.elim_some, if_pos (Nat.not_le.mp hcount)] at hfew
    cases hfew
  · by_contra hcount
    rw [Option.mem_def.mp hhigh, Option.elim_some, if_pos (Nat.not_le.mp hcount)] at hmany
    cases hmany
  · obtain ⟨entry, hentry, hrequired⟩ := List.mem_filterMap.mp hindex
    obtain ⟨outcome, houtcome, hrun⟩ :=
      exists_left_of_mem (mapM_eq_ok_iff.mp heach).flip hentry
    have hnone : outcome.failures = [] := List.flatMap_eq_nil_iff.mp heachClean outcome houtcome
    exact present_of_clean hrequired ⟨outcome, hrun, hnone⟩

end Evaluation

section Kept

/-- The streams a step opens for the block: one without a plan where it has no `streams`. -/
def ExpectStream.opened (block : ExpectStream) : List (Option StreamPlan) :=
  if (block.streams.getD []).isEmpty then [none] else (block.streams.getD []).map some

theorem streamPlans_eq_opened {step : StepFields} {block : ExpectStream}
    (h : step.expectStream = some block) : Runner.streamPlans step = block.opened := by
  simp [Runner.streamPlans, StepFields.plans, ExpectStream.opened, h]

/-- The first events, as many as are read. -/
def readUpTo {α : Type*} (limit : Option ℕ) (events : List α) : List α :=
  limit.elim events fun n => events.take n

theorem length_readUpTo {α : Type*} (limit : Option ℕ) (events : List α) :
    (readUpTo limit events).length = limit.elim events.length fun n => min n events.length := by
  cases limit <;> simp [readUpTo]

theorem readUpTo_of_le {α : Type*} {limit : Option ℕ} {events : List α}
    (h : ∀ n ∈ limit, events.length ≤ n) : readUpTo limit events = events := by
  cases limit with
  | none => rfl
  | some n => exact List.take_of_length_le (h n rfl)

/-- A stream that closes in time is read up to the limit. -/
theorem collect_of_closed {script : StreamScript} {expect : Option ExpectStream}
    {disconnectAfter : Option ℕ} (hclosed : script.ending = .closed) :
    Runner.collect script expect disconnectAfter =
      (do
        Runner.hangUp script disconnectAfter.isSome
        let read := readUpTo (Runner.readLimit expect disconnectAfter) script.events
        pure
          { events := read.map fun event => .normalize event.data event.index
            status := read.findSome? StreamEvent.status
            timedOut := false }) := by
  unfold Runner.collect
  rw [hclosed]
  cases hlimit : Runner.readLimit expect disconnectAfter with
  | none => rfl
  | some n =>
      by_cases hcut : n ≤ script.events.length
      · simp [readUpTo, hcut]
      · have hall : readUpTo (some n) script.events = script.events :=
          readUpTo_of_le fun limit hlimit => by
            cases hlimit
            omega
        simp [hcut, hall]

theorem length_of_collect {events : List StreamEvent} {expect : Option ExpectStream}
    {disconnectAfter : Option ℕ} {one : Runner.Collected}
    (h : Runner.collect { events, ending := .closed } expect disconnectAfter = .ok one) :
    one.events.length =
      (readUpTo (Runner.readLimit expect disconnectAfter) events).length := by
  rw [collect_of_closed rfl] at h
  cases h
  exact List.length_map _

/-- What disconnects a stream bounds what is read of it. -/
theorem readLimit_le {block : ExpectStream} {disconnectAfter : Option ℕ} {d : ℕ}
    (h : d ∈ disconnectAfter) :
    ∃ limit, Runner.readLimit (some block) disconnectAfter = some limit ∧ limit ≤ d := by
  obtain rfl := Option.mem_def.mp h
  unfold Runner.readLimit
  rw [Option.bind_some]
  cases block.maxCount with
  | none => exact ⟨d, rfl, le_refl d⟩
  | some high => exact ⟨min (high + 1) d, rfl, min_le_right _ _⟩

/-- A number of events within the bounds is read to its end. -/
theorem le_readLimit {block : ExpectStream} {disconnectAfter : Option ℕ} {n : ℕ}
    (hcount : ∀ high ∈ block.maxCount, n ≤ high) (hcut : ∀ d ∈ disconnectAfter, n ≤ d) :
    ∀ limit ∈ Runner.readLimit (some block) disconnectAfter, n ≤ limit := by
  intro limit hlimit
  unfold Runner.readLimit at hlimit
  cases hmax : block.maxCount with
  | none =>
      simp only [Option.bind_some, hmax, Option.map_none] at hlimit
      exact hcut limit hlimit
  | some high =>
      have hhigh : n ≤ high := hcount high hmax
      simp only [Option.bind_some, hmax, Option.map_some] at hlimit
      cases hdisconnect : disconnectAfter with
      | none =>
          simp only [hdisconnect, Option.mem_some] at hlimit
          omega
      | some d =>
          have hd : n ≤ d := hcut d hdisconnect
          simp only [hdisconnect, Option.mem_some] at hlimit
          omega

end Kept

section Satisfiable

/-- The counts and the positions of the block and of the plan hold of so many events. -/
structure BoundsHold (block : ExpectStream) (plan : Option StreamPlan) (count : ℕ) : Prop where
  shared : block.CountsHold count
  own : ∀ p ∈ plan, p.CountsHold count

/-- For each of its streams there is a number of events such that the bounds hold of what
the runner keeps of them. -/
def ExpectStream.Satisfiable (block : ExpectStream) : Prop :=
  ∀ plan ∈ block.opened, ∃ n, ∀ events : List StreamEvent, events.length = n →
    ∃ one, Runner.collect { events, ending := .closed } (some block)
        (plan.bind StreamPlan.disconnectAfter) = .ok one ∧
      BoundsHold block plan one.events.length

/-- What bounds the events of a stream from above. -/
def upperBounds (block : ExpectStream) (plan : Option StreamPlan) : List ℕ :=
  block.maxCount.toList ++ (plan.bind fun p => p.maxCount).toList ++
    (plan.bind StreamPlan.disconnectAfter).toList

/-- What bounds them from below: a count, or the position of an event. -/
def lowerBoundsOf (block : ExpectStream) (plan : Option StreamPlan) : List ℕ :=
  block.lowerBounds ++ plan.elim [] fun p => p.lowerBounds

/-- For no stream a bound from below exceeds one from above. -/
def ExpectStream.Compatible (block : ExpectStream) : Prop :=
  ∀ plan ∈ block.opened, ∀ low ∈ lowerBoundsOf block plan, ∀ high ∈ upperBounds block plan,
    low ≤ high

variable {block : ExpectStream} {plan : Option StreamPlan} {count : ℕ}

theorem boundsHold_iff :
    BoundsHold block plan count ↔
      (∀ low ∈ lowerBoundsOf block plan, low ≤ count) ∧
        (∀ high ∈ block.maxCount, count ≤ high) ∧
        ∀ high ∈ plan.bind fun p => p.maxCount, count ≤ high := by
  unfold lowerBoundsOf
  constructor
  · rintro ⟨hshared, hown⟩
    rw [StreamAssertions.countsHold_iff] at hshared
    cases plan with
    | none => simpa using hshared
    | some p =>
        have hp := StreamAssertions.countsHold_iff p.toStreamAssertions |>.mp (hown p rfl)
        refine ⟨?_, hshared.2, hp.2⟩
        exact List.forall_mem_append.mpr ⟨hshared.1, hp.1⟩
  · rintro ⟨hlow, hshared, hown⟩
    obtain ⟨hlowShared, hlowOwn⟩ := List.forall_mem_append.mp hlow
    refine ⟨(StreamAssertions.countsHold_iff _).mpr ⟨hlowShared, hshared⟩, fun p hp => ?_⟩
    obtain rfl := Option.mem_def.mp hp
    exact (StreamAssertions.countsHold_iff _).mpr ⟨hlowOwn, hown⟩

/-- Between bounds that are compatible there is a number: the greatest from below. -/
theorem exists_between {lows highs : List ℕ} (h : ∀ low ∈ lows, ∀ high ∈ highs, low ≤ high) :
    ∃ n, (∀ low ∈ lows, low ≤ n) ∧ ∀ high ∈ highs, n ≤ high := by
  refine ⟨lows.foldr max ⊥, fun low hlow => List.le_max_of_le hlow (le_refl low), ?_⟩
  intro high hhigh
  exact List.max_le_of_forall_le lows high fun low hlow => h low hlow high hhigh

/-- A number of events within the limit stays on the right side of every bound. -/
theorem compatible_of_satisfiable (h : block.Satisfiable) : block.Compatible := by
  intro plan hplan low hlow high hhigh
  obtain ⟨n, hn⟩ := h plan hplan
  obtain ⟨one, hone, hbounds⟩ := hn (List.replicate n ⟨0, .null, none⟩) List.length_replicate
  obtain ⟨hlower, hshared, hown⟩ := boundsHold_iff.mp hbounds
  refine (hlower low hlow).trans ?_
  simp only [upperBounds, List.mem_append, Option.mem_toList] at hhigh
  obtain (hhigh | hhigh) | hhigh := hhigh
  · exact hshared high hhigh
  · exact hown high hhigh
  · obtain ⟨limit, hlimit, hle⟩ := @readLimit_le block _ high hhigh
    rw [length_of_collect hone, hlimit, length_readUpTo]
    exact (Nat.min_le_left _ _).trans hle

theorem satisfiable_of_compatible (h : block.Compatible) : block.Satisfiable := by
  intro plan hplan
  obtain ⟨n, hlower, hupper⟩ := exists_between (h plan hplan)
  simp only [upperBounds, List.forall_mem_append, Option.mem_toList] at hupper
  obtain ⟨⟨hshared, hown⟩, hcut⟩ := hupper
  refine ⟨n, fun events hevents => ⟨_, collect_of_closed rfl, ?_⟩⟩
  have hall : readUpTo (Runner.readLimit (some block) (plan.bind StreamPlan.disconnectAfter))
      events = events := readUpTo_of_le fun limit hlimit =>
    hevents.trans_le (le_readLimit hshared hcut limit hlimit)
  rw [hall, List.length_map, hevents]
  exact boundsHold_iff.mpr ⟨hlower, hshared, hown⟩

/-- The block can be met exactly where its bounds are compatible. -/
theorem satisfiable_iff_compatible (block : ExpectStream) :
    block.Satisfiable ↔ block.Compatible :=
  ⟨compatible_of_satisfiable, satisfiable_of_compatible⟩

/-- One event is read of a stream that has to have two. -/
def cutShort : ExpectStream where
  minCount := some 2
  streams := some
    [{ disconnectAfter := some 1
       countsAreConsistent := by simp
       disconnectPositive := by simp
       noTimeout := rfl
       cutFreesNothing := by simp }]
  countsAreConsistent := by simp
  streamsNonempty := by simp

/-- The schema accepts a block that no stream can meet. -/
theorem cutShort_unsatisfiable : ¬cutShort.Satisfiable := by
  intro h
  have hle := compatible_of_satisfiable h _ (List.mem_singleton.mpr rfl) 2
    (List.mem_append_left _ (List.mem_append_left _ (List.mem_singleton.mpr rfl))) 1
    (List.mem_append_right _ (List.mem_singleton.mpr rfl))
  omega

end Satisfiable

end A2aItk.Acts
