import Mathlib.Data.List.DropRight
import Mathlib.Data.List.ReduceOption

/-!
# Rolling windows

A list that is appended to, cut to its last entries, and published again.

## Implementation notes

What is published is `none` before the first time.
-/

namespace A2aItk.Python

variable {α : Type*}

/-- `l[start:]`. -/
def sliceFrom (start : ℤ) (l : List α) : List α :=
  if start < 0 then l.rtake start.natAbs else l.drop start.natAbs

/-- `if len(l) > limit: l = l[-limit:]`. -/
def pruned (limit : ℤ) (l : List α) : List α :=
  if limit < l.length then sliceFrom (-limit) l else l

/-- A step appends an entry to what is published, or leaves it as it is. -/
def republish (limit : ℤ) (published : Option (List α)) : Option α → Option (List α)
  | none => published
  | some a => some (pruned limit (published.getD [] ++ [a]))

theorem rtake_eq_self {n : ℕ} {l : List α} (h : l.length ≤ n) : l.rtake n = l := by
  rw [List.rtake, Nat.sub_eq_zero_of_le h, List.drop_zero]

/-- What is cut off before is cut off later. -/
theorem rtake_rtake_append (n : ℕ) (l m : List α) :
    (l.rtake n ++ m).rtake n = (l ++ m).rtake n := by
  simp only [List.rtake_eq_reverse_take_reverse, List.reverse_append, List.reverse_reverse,
    List.take_append, List.take_take, List.length_reverse]
  congr 3
  omega

theorem pruned_of_pos {limit : ℤ} (h : 0 < limit) (l : List α) :
    pruned limit l = l.rtake limit.toNat := by
  unfold pruned sliceFrom
  split
  · rw [if_pos (by omega)]
    congr 1
    omega
  · exact (rtake_eq_self (by omega)).symm

/-- A limit of zero is no limit: `l[-0:]` is the whole of `l`. -/
theorem pruned_zero (l : List α) : pruned 0 l = l := by
  unfold pruned sliceFrom
  split <;> rfl

/-- The last entries of all that was ever appended, once anything was. -/
theorem foldl_republish_of_pos {limit : ℤ} (h : 0 < limit) (published : Option (List α))
    (steps : List (Option α)) :
    steps.foldl (republish limit) published =
      if steps.reduceOption = [] then published
      else some ((published.getD [] ++ steps.reduceOption).rtake limit.toNat) := by
  induction steps generalizing published with
  | nil => rfl
  | cons step rest ih =>
      rw [List.foldl_cons, ih]
      cases step with
      | none => rfl
      | some a =>
          have hall := List.append_cons (published.getD []) a rest.reduceOption
          rw [List.reduceOption_cons_of_some, republish, pruned_of_pos h,
            if_neg (List.cons_ne_nil _ _), hall, Option.getD_some]
          split
          · rename_i hrest
            rw [hrest, List.append_nil]
          · rw [rtake_rtake_append]

theorem foldl_republish_zero (published : Option (List α)) (steps : List (Option α)) :
    (steps.foldl (republish 0) published).getD [] =
      published.getD [] ++ steps.reduceOption := by
  induction steps generalizing published with
  | nil => exact (List.append_nil _).symm
  | cons step rest ih =>
      rw [List.foldl_cons, ih]
      cases step with
      | none => rfl
      | some a =>
          rw [List.reduceOption_cons_of_some, republish, pruned_zero]
          exact (List.append_cons _ a rest.reduceOption).symm

end A2aItk.Python
