import A2aItk.Acts.Streams
import Mathlib.Data.List.Chain

/-!
# The order of task states

What `check_ordering` decides by comparing neighbours, as a law about any two events of
the stream. Events without a state are not there for it.
-/

namespace A2aItk.Acts

/-- A later state agrees with an earlier one: nothing moves to the initial state, and a
final state stays. -/
def Keeps (earlier later : String) : Prop :=
  (later = submitted → earlier = submitted) ∧ (earlier ∈ terminalStates → later = earlier)

instance (earlier later : String) : Decidable (Keeps earlier later) :=
  inferInstanceAs (Decidable (_ ∧ _))

/-- The states the events carry, in order. -/
def statesOf (events : List StreamedEvent) : List String := events.filterMap StreamedEvent.state

/-- Neighbours among the states that break the law. -/
def brokenMoves (states : List String) : List (String × String) :=
  (states.zip states.tail).filter fun move => ¬Keeps move.1 move.2

section Law

theorem Keeps.trans {a b c : String} (hab : Keeps a b) (hbc : Keeps b c) : Keeps a c := by
  refine ⟨fun hc => hab.1 (hbc.1 hc), fun ha => ?_⟩
  obtain rfl : b = a := hab.2 ha
  exact hbc.2 ha

instance : Trans Keeps Keeps Keeps := ⟨Keeps.trans⟩

theorem brokenMoves_cons_cons (a b : String) (rest : List String) :
    brokenMoves (a :: b :: rest) =
      (if Keeps a b then [] else [(a, b)]) ++ brokenMoves (b :: rest) := by
  by_cases h : Keeps a b
  · simp [brokenMoves, h]
  · simp [brokenMoves, h]

/-- No neighbours break the law exactly where no two states do. -/
theorem brokenMoves_eq_nil_iff (states : List String) :
    brokenMoves states = [] ↔ states.Pairwise Keeps := by
  rw [← List.isChain_iff_pairwise]
  induction states with
  | nil => simp [brokenMoves]
  | cons a rest ih =>
      cases rest with
      | nil => simp [brokenMoves]
      | cons b rest =>
          rw [brokenMoves_cons_cons, List.append_eq_nil_iff, ih, List.isChain_cons_cons]
          simp

end Law

section Check

theorem length_failures_checkMove (previous next : ℕ × String) :
    (checkMove previous next).failures.length = if Keeps previous.2 next.2 then 0 else 1 := by
  unfold checkMove
  by_cases hsame : next.2 = previous.2
  · have hkeeps : Keeps previous.2 next.2 := ⟨fun h => hsame ▸ h, fun _ => hsame⟩
    rw [if_pos hsame, if_pos hkeeps]
    rfl
  · rw [if_neg hsame]
    by_cases hback : next.2 = submitted
    · have hbroken : ¬Keeps previous.2 next.2 := fun h => hsame (hback.trans (h.1 hback).symm)
      rw [if_neg hbroken]
      simp only [if_pos hback]
      rfl
    · by_cases hfinal : previous.2 ∈ terminalStates
      · have hbroken : ¬Keeps previous.2 next.2 := fun h => hsame (h.2 hfinal)
        rw [if_neg hbroken]
        simp only [if_neg hback, if_pos hfinal]
        rfl
      · have hkeeps : Keeps previous.2 next.2 :=
          ⟨fun h => absurd h hback, fun h => absurd h hfinal⟩
        rw [if_pos hkeeps]
        simp only [if_neg hback, if_neg hfinal]
        rfl

/-- Moving along the states, there is one failure for each move that breaks the law. -/
theorem length_failures_moves (first : ℕ × String) (rest : List (ℕ × String)) :
    (AssertionResult.total (List.zipWith checkMove (first :: rest) rest)).failures.length =
      (brokenMoves ((first :: rest).map Prod.snd)).length := by
  induction rest generalizing first with
  | nil => rfl
  | cons second rest ih =>
      rw [List.zipWith_cons_cons, AssertionResult.total_cons, AssertionResult.failures_add,
        List.length_append, length_failures_checkMove, ih]
      simp only [List.map_cons]
      rw [brokenMoves_cons_cons, List.length_append]
      by_cases h : Keeps first.2 second.2
      · rw [if_pos h, if_pos h]
        rfl
      · rw [if_neg h, if_neg h]
        rfl

theorem map_snd_carriedStates (events : List StreamedEvent) :
    (carriedStates events).map Prod.snd = statesOf events := by
  simp [carriedStates, statesOf, List.map_filterMap, Function.comp_def]

theorem length_failures_checkOrdering (events : List StreamedEvent) :
    (checkOrdering events).failures.length = (brokenMoves (statesOf events)).length := by
  rw [← map_snd_carriedStates, checkOrdering]
  cases carriedStates events with
  | nil => rfl
  | cons first rest => exact length_failures_moves first rest

/-- The check finds a fault exactly where some event breaks the law with an earlier one,
and as many as there are neighbours that break it. -/
theorem ordering_decided (events : List StreamedEvent) :
    ((checkOrdering events).ok = true ↔
      events.Pairwise fun event event' =>
        ∀ earlier ∈ event.state, ∀ later ∈ event'.state, Keeps earlier later) ∧
    (checkOrdering events).failures.length = (brokenMoves (statesOf events)).length := by
  refine ⟨?_, length_failures_checkOrdering events⟩
  calc (checkOrdering events).ok = true
      ↔ (checkOrdering events).failures.length = 0 := by
        rw [AssertionResult.ok, List.isEmpty_iff, List.length_eq_zero_iff]
    _ ↔ brokenMoves (statesOf events) = [] := by
        rw [length_failures_checkOrdering, List.length_eq_zero_iff]
    _ ↔ (statesOf events).Pairwise Keeps := brokenMoves_eq_nil_iff _
    _ ↔ _ := by
        rw [statesOf, List.pairwise_filterMap]
        simp only [Option.mem_def]

end Check

end A2aItk.Acts
