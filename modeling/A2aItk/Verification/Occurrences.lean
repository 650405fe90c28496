import Mathlib.Data.List.Count
import Mathlib.Data.List.Infix
import Mathlib.Algebra.BigOperators.Group.List.Basic
import Mathlib.Algebra.Order.Ring.Nat
import Mathlib.Algebra.Order.BigOperators.Group.List

/-!
# How often a text occurs

The number of places at which one list occurs in another. Where no two of some
lists fit the same place, they share the places at which any of them starts.
-/

namespace A2aItk.Verification

variable {α : Type*} [DecidableEq α] {needle : List α}

/-- The number of places at which a list that is not empty occurs. -/
def occurrences (needle : List α) : List α → Nat
  | [] => 0
  | a :: rest => (if needle <+: a :: rest then 1 else 0) + occurrences needle rest

/-- What occurs in one part or in the other occurs in the whole. -/
theorem occurrences_append_le (needle l r : List α) :
    occurrences needle l + occurrences needle r ≤ occurrences needle (l ++ r) := by
  induction l with
  | nil => simp [occurrences]
  | cons a rest ih =>
      have hhere : (if needle <+: a :: rest then 1 else 0) ≤
          if needle <+: a :: (rest ++ r) then 1 else 0 := by
        split
        · rename_i h
          rw [if_pos (h.trans (by simp))]
        · exact Nat.zero_le _
      rw [List.cons_append, occurrences, occurrences]
      omega

theorem occurrences_mono {l r : List α} (h : l <:+: r) :
    occurrences needle l ≤ occurrences needle r := by
  obtain ⟨before, after, rfl⟩ := h
  have hleft := occurrences_append_le needle before l
  have hright := occurrences_append_le needle (before ++ l) after
  omega

theorem one_le_occurrences_self (hne : needle ≠ []) : 1 ≤ occurrences needle needle := by
  cases needle with
  | nil => exact absurd rfl hne
  | cons a rest =>
      rw [occurrences, if_pos (List.prefix_refl _)]
      exact Nat.le_add_right 1 _

theorem one_le_occurrences {l : List α} (hne : needle ≠ []) (h : needle <:+: l) :
    1 ≤ occurrences needle l :=
  (one_le_occurrences_self hne).trans (occurrences_mono h)

section Shared

variable {needles : List (List α)} {mark : α}

/-- Of needles that never fit the same place at most one fits a place, and only
where their mark stands. -/
theorem sum_fits_le (hnodup : needles.Nodup)
    (hmark : ∀ needle ∈ needles, ∃ rest, needle = mark :: rest)
    (hfree : ∀ n ∈ needles, ∀ m ∈ needles, ∀ l : List α, n <+: l → m <+: l → n = m)
    (a : α) (rest : List α) :
    (needles.map fun needle => if needle <+: a :: rest then 1 else 0).sum ≤
      if a = mark then 1 else 0 := by
  induction needles with
  | nil => simp
  | cons first others ih =>
      obtain ⟨hout, hnodup⟩ := List.nodup_cons.mp hnodup
      rw [List.map_cons, List.sum_cons]
      by_cases hfits : first <+: a :: rest
      · have hothers : (others.map fun n => if n <+: a :: rest then 1 else 0).sum = 0 := by
          apply List.sum_eq_zero
          intro k hk
          obtain ⟨other, hother, rfl⟩ := List.mem_map.mp hk
          rw [if_neg]
          intro h
          obtain rfl := hfree first (by simp) other (by simp [hother]) _ hfits h
          exact hout hother
        obtain ⟨tail, rfl⟩ := hmark first (by simp)
        have ha : mark = a := (List.cons_prefix_cons.mp hfits).1
        rw [hothers, if_pos hfits, if_pos ha.symm]
      · rw [if_neg hfits, Nat.zero_add]
        exact ih hnodup (fun n hn => hmark n (by simp [hn]))
          fun n hn m hm => hfree n (by simp [hn]) m (by simp [hm])

/-- Needles that never fit the same place occur, together, at most as often as
their mark. -/
theorem sum_occurrences_le (hnodup : needles.Nodup)
    (hmark : ∀ needle ∈ needles, ∃ rest, needle = mark :: rest)
    (hfree : ∀ n ∈ needles, ∀ m ∈ needles, ∀ l : List α, n <+: l → m <+: l → n = m)
    (l : List α) :
    (needles.map fun needle => occurrences needle l).sum ≤ l.count mark := by
  induction l with
  | nil => simp [occurrences]
  | cons a rest ih =>
      have hhere := sum_fits_le hnodup hmark hfree a rest
      simp only [occurrences, List.sum_map_add, List.count_cons, beq_iff_eq]
      omega

/-- Where the needles occur as often as their mark at most, and each at least once,
none occurs twice. -/
theorem occurrences_le_one (hnodup : needles.Nodup)
    (hmark : ∀ needle ∈ needles, ∃ rest, needle = mark :: rest)
    (hfree : ∀ n ∈ needles, ∀ m ∈ needles, ∀ l : List α, n <+: l → m <+: l → n = m)
    {l : List α} (hcount : l.count mark ≤ needles.length)
    (honce : ∀ n ∈ needles, 1 ≤ occurrences n l) {n : List α} (hn : n ∈ needles) :
    occurrences n l ≤ 1 := by
  have hsum := (sum_occurrences_le hnodup hmark hfree l).trans hcount
  have hperm := (List.perm_cons_erase hn).map fun needle => occurrences needle l
  rw [hperm.sum_eq, List.map_cons, List.sum_cons] at hsum
  have hothers : (needles.erase n).length ≤
      ((needles.erase n).map fun needle => occurrences needle l).sum := by
    have hone := List.length_le_sum_of_one_le
      ((needles.erase n).map fun needle => occurrences needle l) (by
        intro k hk
        obtain ⟨other, hother, rfl⟩ := List.mem_map.mp hk
        exact honce other (List.mem_of_mem_erase hother))
    simpa using hone
  have hlength := List.length_erase_of_mem hn
  omega

end Shared

end A2aItk.Verification
