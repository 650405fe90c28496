import Mathlib.Data.List.Basic
import Mathlib.Data.List.Infix
import Mathlib.Tactic.Ring

/-!
# Replacing all occurrences

`s.replace(pat, v)` and `s.count(pat)`, for a pattern whose first character occurs in it once:
no two occurrences of it overlap.
-/

namespace A2aItk.Python

namespace Replace

variable {α : Type*} [DecidableEq α]

section Definitions

variable (pat v : List α)

/-- The worker of `replace`: `skip` characters of an occurrence are still to be passed over. -/
def replaceGo : ℕ → List α → List α
  | _, [] => []
  | skip + 1, _ :: rest => replaceGo skip rest
  | 0, c :: rest =>
      if pat.isPrefixOf (c :: rest) then v ++ replaceGo (pat.length - 1) rest
      else c :: replaceGo 0 rest

/-- `s.replace(pat, v)`. -/
def replace (s : List α) : List α := replaceGo pat v 0 s

def countGo : ℕ → List α → ℕ
  | _, [] => 0
  | skip + 1, _ :: rest => countGo skip rest
  | 0, c :: rest =>
      if pat.isPrefixOf (c :: rest) then countGo (pat.length - 1) rest + 1 else countGo 0 rest

/-- `s.count(pat)`. -/
def count (s : List α) : ℕ := countGo pat 0 s

end Definitions

variable {pat v s l r : List α} {c : α} {rest : List α}

@[simp] theorem replace_nil : replace pat v [] = [] := rfl

@[simp] theorem count_nil : count pat [] = 0 := rfl

theorem replaceGo_skip (skip : ℕ) : replaceGo pat v skip s = replace pat v (s.drop skip) := by
  induction s generalizing skip with
  | nil => cases skip <;> rfl
  | cons c rest ih =>
      cases skip with
      | zero => rfl
      | succ skip => exact ih skip

theorem countGo_skip (skip : ℕ) : countGo pat skip s = count pat (s.drop skip) := by
  induction s generalizing skip with
  | nil => cases skip <;> rfl
  | cons c rest ih =>
      cases skip with
      | zero => rfl
      | succ skip => exact ih skip

theorem replace_of_no_match (h : ¬ pat <+: c :: rest) :
    replace pat v (c :: rest) = c :: replace pat v rest := by
  rw [replace, replaceGo, if_neg (by simpa [List.isPrefixOf_iff_prefix] using h)]
  rfl

theorem count_of_no_match (h : ¬ pat <+: c :: rest) :
    count pat (c :: rest) = count pat rest := by
  rw [count, countGo, if_neg (by simpa [List.isPrefixOf_iff_prefix] using h)]
  rfl

theorem replace_append_self (hpat : pat ≠ []) :
    replace pat v (pat ++ r) = v ++ replace pat v r := by
  obtain ⟨c, tail, rfl⟩ := List.exists_cons_of_ne_nil hpat
  have hmatch : (c :: tail).isPrefixOf (c :: (tail ++ r)) = true :=
    List.isPrefixOf_iff_prefix.mpr (List.prefix_append (c :: tail) r)
  rw [List.cons_append, replace, replaceGo, if_pos hmatch, replaceGo_skip]
  simp

theorem count_append_self (hpat : pat ≠ []) : count pat (pat ++ r) = count pat r + 1 := by
  obtain ⟨c, tail, rfl⟩ := List.exists_cons_of_ne_nil hpat
  have hmatch : (c :: tail).isPrefixOf (c :: (tail ++ r)) = true :=
    List.isPrefixOf_iff_prefix.mpr (List.prefix_append (c :: tail) r)
  rw [List.cons_append, count, countGo, if_pos hmatch, countGo_skip]
  simp

/-- A text is built from occurrences and from characters that begin none. -/
theorem induction_on {P : List α → Prop} (hpat : pat ≠ []) (s : List α) (hnil : P [])
    (hoccurs : ∀ r, P r → P (pat ++ r))
    (hcons : ∀ c rest, ¬ pat <+: c :: rest → P rest → P (c :: rest)) : P s := by
  induction hlen : s.length using Nat.strong_induction_on generalizing s with
  | _ n ih =>
      cases s with
      | nil => exact hnil
      | cons c rest =>
          by_cases hmatch : pat <+: c :: rest
          · obtain ⟨r, hr⟩ := hmatch
            rw [← hr] at hlen ⊢
            have hpos := List.length_pos_iff.mpr hpat
            rw [List.length_append] at hlen
            exact hoccurs r (ih r.length (by omega) r rfl)
          · exact hcons c rest hmatch (ih rest.length (by simp [← hlen]) rest rfl)

theorem length_replace (hpat : pat ≠ []) (s : List α) :
    (replace pat v s).length + count pat s * pat.length =
      s.length + count pat s * v.length := by
  induction s using induction_on hpat with
  | hnil => simp
  | hoccurs r ih =>
      rw [replace_append_self hpat, count_append_self hpat, List.length_append,
        List.length_append, add_mul, add_mul]
      omega
  | hcons c rest hmatch ih =>
      rw [replace_of_no_match hmatch, count_of_no_match hmatch, List.length_cons,
        List.length_cons]
      omega

theorem replace_of_count_eq_zero (hpat : pat ≠ []) (h : count pat s = 0) :
    replace pat v s = s := by
  induction s using induction_on hpat with
  | hnil => rfl
  | hoccurs r ih =>
      rw [count_append_self hpat] at h
      omega
  | hcons c rest hmatch ih =>
      rw [count_of_no_match hmatch] at h
      rw [replace_of_no_match hmatch, ih h]

@[simp] theorem replace_self (hpat : pat ≠ []) (s : List α) : replace pat pat s = s := by
  induction s using induction_on hpat with
  | hnil => rfl
  | hoccurs r ih => rw [replace_append_self hpat, ih]
  | hcons c rest hmatch ih => rw [replace_of_no_match hmatch, ih]

/-- A replacement of the same length that changes nothing replaces nothing, or each
occurrence by itself. -/
theorem eq_of_replace_eq (hpat : pat ≠ []) (hlen : v.length = pat.length)
    (h : replace pat v s = s) : count pat s = 0 ∨ v = pat := by
  induction s using induction_on hpat with
  | hnil => exact .inl rfl
  | hoccurs r ih =>
      rw [replace_append_self hpat] at h
      exact .inr (List.append_inj h hlen).1
  | hcons c rest hmatch ih =>
      rw [replace_of_no_match hmatch, List.cons.injEq] at h
      rw [count_of_no_match hmatch]
      exact ih h.2

/-- No occurrence begins where its first character is missing. -/
theorem count_append_of_notMem {first : α} {tail : List α} (h : first ∉ l) :
    count (first :: tail) (l ++ r) = count (first :: tail) r := by
  induction l with
  | nil => rfl
  | cons c rest ih =>
      rw [List.mem_cons, not_or] at h
      have hno : ¬ first :: tail <+: c :: (rest ++ r) := by
        rw [List.cons_prefix_cons]
        exact fun hmatch => h.1 hmatch.1
      rw [List.cons_append, count_of_no_match hno, ih h.2]

section Once

variable {first : α} {tail : List α} (hfirst : first ∉ tail)

include hfirst

omit [DecidableEq α] in
/-- In front of an occurrence no other one reaches into it. -/
theorem prefix_append_iff (hne : l ≠ []) :
    first :: tail <+: l ++ (first :: tail ++ r) ↔ first :: tail <+: l := by
  refine ⟨fun h => ?_, fun h => h.trans (List.prefix_append _ _)⟩
  by_cases hlen : (first :: tail).length ≤ l.length
  · exact List.prefix_of_prefix_length_le h (List.prefix_append _ _) hlen
  · exfalso
    obtain ⟨x, rest, rfl⟩ := List.exists_cons_of_ne_nil hne
    rw [List.cons_append, List.cons_prefix_cons] at h
    -- the character behind `l` is the first one of the occurrence
    have hlt : rest.length < tail.length := by
      simp only [List.length_cons] at hlen
      omega
    have hget := List.prefix_iff_getElem?.mp h.2 rest.length hlt
    rw [List.getElem?_append_right le_rfl] at hget
    have hchar : first = tail[rest.length] := by simpa using hget
    exact hfirst (hchar ▸ List.getElem_mem hlt)

theorem replace_append :
    replace (first :: tail) v (l ++ (first :: tail ++ r)) =
      replace (first :: tail) v l ++ (v ++ replace (first :: tail) v r) := by
  induction l using induction_on (List.cons_ne_nil first tail) with
  | hnil => exact replace_append_self (List.cons_ne_nil _ _)
  | hoccurs rest ih =>
      rw [List.append_assoc, replace_append_self (List.cons_ne_nil _ _), ih,
        replace_append_self (List.cons_ne_nil _ _), List.append_assoc]
  | hcons c rest hmatch ih =>
      have hno : ¬ first :: tail <+: c :: (rest ++ (first :: tail ++ r)) := by
        rw [← List.cons_append, prefix_append_iff hfirst (List.cons_ne_nil _ _)]
        exact hmatch
      rw [List.cons_append, replace_of_no_match hno, ih, replace_of_no_match hmatch,
        List.cons_append]

theorem count_append :
    count (first :: tail) (l ++ (first :: tail ++ r)) =
      count (first :: tail) l + 1 + count (first :: tail) r := by
  induction l using induction_on (List.cons_ne_nil first tail) with
  | hnil =>
      rw [List.nil_append, count_append_self (List.cons_ne_nil _ _), count_nil]
      omega
  | hoccurs rest ih =>
      rw [List.append_assoc, count_append_self (List.cons_ne_nil _ _), ih,
        count_append_self (List.cons_ne_nil _ _)]
      omega
  | hcons c rest hmatch ih =>
      have hno : ¬ first :: tail <+: c :: (rest ++ (first :: tail ++ r)) := by
        rw [← List.cons_append, prefix_append_iff hfirst (List.cons_ne_nil _ _)]
        exact hmatch
      rw [List.cons_append, count_of_no_match hno, ih, count_of_no_match hmatch]

/-- One occurrence is replaced as wished just where there is no other, or where it is
replaced by itself. -/
theorem replace_once_iff :
    replace (first :: tail) v (l ++ (first :: tail ++ r)) = l ++ (v ++ r) ↔
      count (first :: tail) (l ++ (first :: tail ++ r)) = 1 ∨ v = first :: tail := by
  have hpat : first :: tail ≠ [] := List.cons_ne_nil _ _
  rw [replace_append hfirst, count_append hfirst]
  constructor
  · intro h
    have hl := length_replace (v := v) hpat l
    have hr := length_replace (v := v) hpat r
    have htotal := congrArg List.length h
    simp only [List.length_append] at htotal
    by_cases hlen : v.length = (first :: tail).length
    · rw [hlen] at hl
      obtain ⟨hleft, hright⟩ := List.append_inj h (by omega)
      have hright' := List.append_cancel_left hright
      rcases eq_of_replace_eq hpat hlen hleft with hzero | heq
      · rcases eq_of_replace_eq hpat hlen hright' with hzero' | heq
        · exact .inl (by omega)
        · exact .inr heq
      · exact .inr heq
    · left
      have hsum : (count (first :: tail) l + count (first :: tail) r) * (first :: tail).length =
          (count (first :: tail) l + count (first :: tail) r) * v.length := by
        rw [add_mul, add_mul]
        omega
      rcases Nat.eq_zero_or_pos (count (first :: tail) l + count (first :: tail) r) with hz | hp
      · omega
      · exact absurd (Nat.eq_of_mul_eq_mul_left hp hsum).symm hlen
  · rintro (hone | rfl)
    · rw [replace_of_count_eq_zero hpat (by omega), replace_of_count_eq_zero hpat (by omega)]
    · rw [replace_self hpat, replace_self hpat]

end Once

end Replace

end A2aItk.Python
