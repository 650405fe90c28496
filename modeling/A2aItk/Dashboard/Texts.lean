import Mathlib.Data.List.Basic

/-!
# Letter case

What the dashboard needs to know of `toLowerCase`.
-/

namespace A2aItk.Dashboard

/-- The letter case of the browser. -/
structure LetterCase where
  toLowerCase : String → String
  /-- ASCII letters are mapped one by one. -/
  ascii : ∀ s : String, (∀ c ∈ s.toList, c.toNat < 128) → toLowerCase s = s.map Char.toLower
  /-- No character becomes a comma. -/
  comma : ∀ s : String, ',' ∉ s.toList → ',' ∉ (toLowerCase s).toList

namespace LetterCase

variable (letters : LetterCase)

/-- `current` in any spelling. -/
def isCurrent (name : String) : Bool := letters.toLowerCase name = "current"

theorem isCurrent_current : letters.isCurrent "current" = true := by
  have hall : ("current".toList.all fun c => c.toNat < 128) = true := by decide +kernel
  have hascii : letters.toLowerCase "current" = "current".map Char.toLower :=
    letters.ascii _ fun c hc => of_decide_eq_true (List.all_eq_true.mp hall c hc)
  rw [isCurrent, hascii, decide_eq_true_eq]
  decide +kernel

theorem toLower_ne_comma {c : Char} (h : c ≠ ',') : c.toLower ≠ ',' := by
  unfold Char.toLower
  split
  · rename_i hupper
    intro heq
    have hval : c.val + 32 = 44 := congrArg Char.val heq
    have hle : 65 ≤ c.val.toNat ∧ c.val.toNat ≤ 90 := hupper
    have hsum : (c.val + 32).toNat = 44 := by rw [hval]; rfl
    have hshift : (c.val + 32).toNat = (c.val.toNat + 32) % 2 ^ 32 := UInt32.toNat_add _ _
    omega
  · exact h

/-- A browser that knows no letters beyond ASCII. -/
def plain : LetterCase where
  toLowerCase s := s.map Char.toLower
  ascii _ _ := rfl
  comma s h := by
    rw [String.toList_map, List.mem_map]
    rintro ⟨c, hc, heq⟩
    exact toLower_ne_comma (fun hcomma => h (hcomma ▸ hc)) heq

end LetterCase

end A2aItk.Dashboard
