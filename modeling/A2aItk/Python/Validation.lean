import A2aItk.Python.Exceptions
import Mathlib.Tactic.Tauto
import Mathlib.Data.List.Nodup

/-!
# Validations that collect their problems

A validation goes on after a problem: two validations side by side, and a list of them,
fail with the problems of all their parts.
-/

namespace A2aItk.Python

namespace Validation

universe u v

variable {ε : Type u} {α β : Type v}

/-- Both results, or the problems of both. -/
def both : Except (List ε) α → Except (List ε) β → Except (List ε) (α × β)
  | .ok a, .ok b => .ok (a, b)
  | .ok _, .error problems => .error problems
  | .error problems, .ok _ => .error problems
  | .error problems, .error more => .error (problems ++ more)

theorem both_eq_ok_iff {x : Except (List ε) α} {y : Except (List ε) β} {r : α × β} :
    both x y = .ok r ↔ x = .ok r.1 ∧ y = .ok r.2 := by
  obtain ⟨a, b⟩ := r
  cases x <;> cases y <;> simp [both]

/-- All results, or the problems of all. -/
def collect : List (Except (List ε) α) → Except (List ε) (List α)
  | [] => .ok []
  | x :: rest => (fun r => r.1 :: r.2) <$> both x (collect rest)

theorem collect_eq_ok_iff {l : List (Except (List ε) α)} {r : List α} :
    collect l = .ok r ↔ List.Forall₂ (fun x a => x = .ok a) l r := by
  induction l generalizing r with
  | nil => cases r <;> simp [collect]
  | cons x rest ih =>
      simp only [collect, map_eq_ok_iff, both_eq_ok_iff, ih]
      constructor
      · rintro ⟨⟨a, as⟩, ⟨ha, has⟩, rfl⟩
        exact .cons ha has
      · rintro (_ | ⟨ha, has⟩)
        exact ⟨(_, _), ⟨ha, has⟩, rfl⟩

section Repeats

variable [DecidableEq α]

/-- `for x in l: if x in seen: return x; seen.add(x)`. -/
def firstRepeatFrom (seen : List α) : List α → Option α
  | [] => none
  | a :: rest => if a ∈ seen then some a else firstRepeatFrom (a :: seen) rest

def firstRepeat (l : List α) : Option α := firstRepeatFrom [] l

theorem firstRepeatFrom_eq_none_iff {seen l : List α} :
    firstRepeatFrom seen l = none ↔ l.Nodup ∧ l.Disjoint seen := by
  induction l generalizing seen with
  | nil => simp [firstRepeatFrom]
  | cons a rest ih =>
      rw [firstRepeatFrom, List.nodup_cons, List.disjoint_cons_left]
      by_cases ha : a ∈ seen
      · simp [ha]
      · rw [if_neg ha, ih, List.disjoint_cons_right]
        tauto

theorem firstRepeat_eq_none_iff {l : List α} : firstRepeat l = none ↔ l.Nodup := by
  rw [firstRepeat, firstRepeatFrom_eq_none_iff]
  simp

end Repeats

end Validation

end A2aItk.Python
