import A2aItk.Python.Text
import Mathlib.Data.List.TakeWhile
import Mathlib.Tactic.Ring

/-!
# Numbers written in digits

What `int` reads in the texts that `str.isdigit` accepts, and what `str.strip` leaves of a
text with space around it.
-/

namespace A2aItk.Python.Text

/-- The number a list of decimal digits spells, behind the ones already read. -/
def digitsFrom (acc : Nat) (s : List Char) : Nat :=
  s.foldl (fun acc c => acc * 10 + (decimal c).getD 0) acc

/-- The number that digits spell. -/
def digitsValue (s : List Char) : Nat := digitsFrom 0 s

/-- All characters are digits, of whatever script. -/
def AllDecimal (s : List Char) : Prop := ∀ c ∈ s, (decimal c).isSome = true

/-- All characters are spaces. -/
def AllSpace (s : List Char) : Prop := ∀ c ∈ s, isSpace c = true

section Spaces

variable {s front back : List Char} {c : Char}

theorem decimal_of_mem_whitespacePoints :
    ∀ n ∈ whitespacePoints, decimal (Char.ofNat n) = none := by
  decide

theorem not_isSpace_of_decimal (h : (decimal c).isSome = true) : isSpace c = false := by
  rw [Bool.eq_false_iff]
  intro hspace
  have hnone := decimal_of_mem_whitespacePoints c.toNat (by simpa [isSpace] using hspace)
  rw [Char.ofNat_toNat] at hnone
  rw [hnone] at h
  cases h

theorem dropWhile_of_allSpace (h : AllSpace front) :
    (front ++ s).dropWhile isSpace = s.dropWhile isSpace := by
  induction front with
  | nil => rfl
  | cons c rest ih =>
      rw [List.cons_append, List.dropWhile_cons_of_pos (h c (by simp))]
      exact ih fun d hd => h d (by simp [hd])

theorem dropWhile_eq_self (h : ∀ c ∈ s.head?, isSpace c = false) : s.dropWhile isSpace = s := by
  cases s with
  | nil => rfl
  | cons c rest => rw [List.dropWhile_cons_of_neg (by simp [h c rfl])]

/-- A text without space inside survives the space around it. -/
theorem strip_spaced (hfront : AllSpace front) (hback : AllSpace back)
    (hs : ∀ c ∈ s, isSpace c = false) : strip (front ++ (s ++ back)) = s := by
  rw [strip, dropWhile_of_allSpace hfront]
  cases s with
  | nil =>
      have hnil : back.dropWhile isSpace = [] := List.dropWhile_eq_nil_iff.mpr hback
      rw [List.nil_append, hnil]
      rfl
  | cons c rest =>
      have hkeep : (c :: rest ++ back).dropWhile isSpace = c :: rest ++ back := by
        refine dropWhile_eq_self fun d hd => ?_
        rw [List.cons_append, List.head?_cons, Option.mem_some_iff] at hd
        exact hs d (by simp [hd])
      have hlast : (c :: rest).reverse.dropWhile isSpace = (c :: rest).reverse :=
        dropWhile_eq_self fun d hd => hs d (List.mem_reverse.mp (List.mem_of_mem_head? hd))
      rw [hkeep, List.reverse_append,
        dropWhile_of_allSpace fun d hd => hback d (List.mem_reverse.mp hd), hlast,
        List.reverse_reverse]

/-- A text is its strip with the space around it. -/
theorem exists_strip (s : List Char) :
    ∃ front back, AllSpace front ∧ AllSpace back ∧ s = front ++ (strip s ++ back) := by
  have htake : ∀ l : List Char, AllSpace (l.takeWhile isSpace) := fun l c hc =>
    List.mem_takeWhile_imp hc
  refine ⟨s.takeWhile isSpace, ((s.dropWhile isSpace).reverse.takeWhile isSpace).reverse,
    htake s, fun c hc => htake _ c (List.mem_reverse.mp hc), ?_⟩
  rw [strip, ← List.reverse_append, List.takeWhile_append_dropWhile, List.reverse_reverse,
    List.takeWhile_append_dropWhile]

end Spaces

section Values

variable {s t : List Char} {acc : Nat}

theorem digitsFrom_append : digitsFrom acc (s ++ t) = digitsFrom (digitsFrom acc s) t :=
  List.foldl_append

theorem digitsFrom_eq : digitsFrom acc s = acc * 10 ^ s.length + digitsValue s := by
  induction s generalizing acc with
  | nil => simp [digitsFrom, digitsValue]
  | cons c rest ih =>
      have hvalue : digitsValue (c :: rest) = digitsFrom ((decimal c).getD 0) rest := by
        simp [digitsValue, digitsFrom]
      have hstep : digitsFrom acc (c :: rest) = digitsFrom (acc * 10 + (decimal c).getD 0) rest :=
        rfl
      rw [hstep, ih, hvalue, ih, List.length_cons]
      ring

theorem digitsValue_append :
    digitsValue (s ++ t) = digitsValue s * 10 ^ t.length + digitsValue t := by
  rw [digitsValue, digitsFrom_append, digitsFrom_eq]
  rfl

theorem ne_underscore_of_isDigitChar {c : Char} (h : isDigitChar c = true) : c ≠ '_' := by
  rintro rfl
  exact absurd h (by decide)

theorem intDigits_eq (h : s.all isDigitChar = true) :
    intDigits acc s = if s.all (fun c => (decimal c).isSome) then some (digitsFrom acc s)
      else none := by
  induction s generalizing acc with
  | nil => simp [intDigits, digitsFrom]
  | cons c rest ih =>
      rw [List.all_cons, Bool.and_eq_true] at h
      have hstep : intDigits acc (c :: rest) =
          (decimal c).bind fun d => intDigits (acc * 10 + d) rest := by
        rw [intDigits]
        · rfl
        · intro d rest' hc
          exact absurd hc (ne_underscore_of_isDigitChar h.1)
      rw [hstep]
      cases hd : decimal c with
      | none => simp [hd]
      | some d =>
          rw [Option.bind_some, ih h.2, List.all_cons, hd, Option.isSome_some, Bool.true_and]
          simp [digitsFrom, hd]

/-- `int` reads decimal digits, and no others. -/
theorem int_eq_some_iff (h : isDigit s = true) {n : Nat} :
    int s = some (n : Int) ↔ AllDecimal s ∧ digitsValue s = n := by
  cases s with
  | nil => cases h
  | cons c rest =>
      rw [isDigit, Bool.and_eq_true] at h
      have hc : isDigitChar c = true := by
        rw [List.all_cons, Bool.and_eq_true] at h
        exact h.2.1
      have hplus : c ≠ '+' := by
        rintro rfl
        exact absurd hc (by decide)
      have hminus : c ≠ '-' := by
        rintro rfl
        exact absurd hc (by decide)
      have hliteral : natLiteral (c :: rest) = intDigits 0 (c :: rest) := by
        rw [natLiteral, intDigits]
        · simp
        · intro d rest' hunder
          exact absurd hunder (ne_underscore_of_isDigitChar hc)
      rw [int]
      · rw [hliteral, intDigits_eq h.2]
        split
        · rename_i hall
          have hdecimal : AllDecimal (c :: rest) := by simpa [AllDecimal] using hall
          rw [Option.map_some, Option.some_inj]
          exact ⟨fun hn => ⟨hdecimal, Int.ofNat.inj hn⟩, fun hn => congrArg Int.ofNat hn.2⟩
        · rename_i hall
          have hdecimal : ¬ AllDecimal (c :: rest) := by simpa [AllDecimal] using hall
          exact ⟨fun hnone => (by cases hnone), fun hn => absurd hn.1 hdecimal⟩
      · exact fun rest' hr => hplus (List.cons.inj hr).1
      · exact fun rest' hr => hminus (List.cons.inj hr).1

end Values

end A2aItk.Python.Text
