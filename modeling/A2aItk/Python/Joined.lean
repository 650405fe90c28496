import A2aItk.Python.Digits
import Mathlib.Tactic.Ring

/-!
# Joined texts

Where `sep.join(parts)` can be taken apart again.
-/

namespace A2aItk.Python

section Suffixes

variable {α : Type*} {c : α} {x y a b front : List α}

/-- What follows the last separator is what avoids its last character. -/
theorem append_separator_inj [DecidableEq α] (ha : c ∉ a) (hb : c ∉ b)
    (h : x ++ ((front ++ [c]) ++ a) = y ++ ((front ++ [c]) ++ b)) : x = y ∧ a = b := by
  have htail : ∀ {z d : List α}, c ∉ d →
      (z ++ ((front ++ [c]) ++ d)).reverse.takeWhile (· ≠ c) = d.reverse := by
    intro z d hd
    have hkeep : ∀ e ∈ d.reverse, decide (e ≠ c) = true := by
      intro e he
      simp only [ne_eq, decide_eq_true_eq]
      rintro rfl
      exact hd (List.mem_reverse.mp he)
    simp only [List.reverse_append, List.append_assoc]
    rw [List.takeWhile_append_of_pos hkeep]
    simp
  have hab : a = b := by
    rw [← List.reverse_inj, ← htail ha, ← htail hb, h]
  subst hab
  exact ⟨List.append_cancel_right h, rfl⟩

/-- What stands before the first separator is what avoids it. -/
theorem append_cons_inj (ha : c ∉ a) (hb : c ∉ b) (h : a ++ c :: x = b ++ c :: y) :
    a = b ∧ x = y := by
  induction a generalizing b with
  | nil =>
      cases b with
      | nil => exact ⟨rfl, (List.cons.inj h).2⟩
      | cons d rest =>
          have hd : c = d := (List.cons.inj h).1
          exact absurd (by simp [hd]) hb
  | cons d rest ih =>
      cases b with
      | nil =>
          have hd : d = c := (List.cons.inj h).1
          exact absurd (by simp [hd]) ha
      | cons d' rest' =>
          obtain ⟨hd, hrest⟩ := List.cons.inj h
          obtain ⟨hab, hxy⟩ :=
            ih (fun hin => ha (by simp [hin])) (fun hin => hb (by simp [hin])) hrest
          exact ⟨by rw [hd, hab], hxy⟩

/-- A run of characters ends where the next one is of another kind. -/
theorem span_append {p : α → Bool} {l r : List α} (hl : ∀ d ∈ l, p d = true)
    (hr : ∀ d ∈ r.head?, p d = false) :
    (l ++ r).takeWhile p = l ∧ (l ++ r).dropWhile p = r := by
  induction l with
  | nil =>
      cases r with
      | nil => exact ⟨rfl, rfl⟩
      | cons d rest =>
          have hd : p d = false := hr d rfl
          exact ⟨List.takeWhile_cons_of_neg (by simp [hd]),
            List.dropWhile_cons_of_neg (by simp [hd])⟩
  | cons d rest ih =>
      obtain ⟨htake, hdrop⟩ := ih fun e he => hl e (by simp [he])
      have hd : p d = true := hl d (by simp)
      rw [List.cons_append, List.takeWhile_cons_of_pos hd, List.dropWhile_cons_of_pos hd, htake]
      exact ⟨rfl, hdrop⟩

/-- Parts that each follow a separator they avoid. -/
theorem flatMap_cons_inj [DecidableEq α] {parts parts' : List (List α)}
    (hparts : ∀ part ∈ parts, c ∉ part) (hparts' : ∀ part ∈ parts', c ∉ part)
    (h : parts.flatMap (c :: ·) = parts'.flatMap (c :: ·)) : parts = parts' := by
  have hspan : ∀ (part : List α) (rest : List (List α)), c ∉ part →
      (part ++ rest.flatMap (c :: ·)).takeWhile (· ≠ c) = part ∧
        (part ++ rest.flatMap (c :: ·)).dropWhile (· ≠ c) = rest.flatMap (c :: ·) := by
    intro part rest hpart
    apply span_append
    · intro d hd
      rw [decide_eq_true_eq]
      rintro rfl
      exact hpart hd
    · intro d hd
      cases rest with
      | nil => cases hd
      | cons first rest =>
          cases hd
          simp
  induction parts generalizing parts' with
  | nil =>
      cases parts' with
      | nil => rfl
      | cons part' rest' => cases h
  | cons part rest ih =>
      cases parts' with
      | nil => cases h
      | cons part' rest' =>
          rw [List.forall_mem_cons] at hparts hparts'
          have htail := (List.cons.inj h).2
          have hpart := hspan part rest hparts.1
          have hpart' := hspan part' rest' hparts'.1
          have heq : part = part' := by
            rw [← hpart.1, ← hpart'.1]
            exact congrArg (List.takeWhile _) htail
          have hrest : rest.flatMap (c :: ·) = rest'.flatMap (c :: ·) := by
            rw [← hpart.2, ← hpart'.2]
            exact congrArg (List.dropWhile _) htail
          rw [heq, ih hparts.2 hparts'.2 hrest]

theorem length_intercalate_cons (x a : List α) (rest : List (List α)) :
    (x.intercalate (a :: rest)).length =
      a.length + (rest.map List.length).sum + rest.length * x.length := by
  induction rest generalizing a with
  | nil => simp
  | cons b rest ih =>
      rw [List.intercalate_cons_cons, List.length_append, List.length_append, ih b, List.map_cons,
        List.sum_cons, List.length_cons]
      ring

/-- Two or more parts tell by what they are joined. -/
theorem intercalate_separator_inj {parts : List (List α)} (hparts : 1 < parts.length)
    (h : x.intercalate parts = y.intercalate parts) : x = y := by
  obtain ⟨a, b, rest, rfl⟩ : ∃ a b rest, parts = a :: b :: rest := by
    cases parts with
    | nil => simp at hparts
    | cons a rest =>
        cases rest with
        | nil => simp at hparts
        | cons b rest => exact ⟨a, b, rest, rfl⟩
  have hlen : x.length = y.length := by
    have hlens := congrArg List.length h
    rw [length_intercalate_cons, length_intercalate_cons, Nat.add_left_cancel_iff] at hlens
    exact Nat.eq_of_mul_eq_mul_left (by simp) hlens
  rw [List.intercalate_cons_cons, List.intercalate_cons_cons, List.append_assoc,
    List.append_assoc, List.append_cancel_left_eq] at h
  exact (List.append_inj h hlen).1

end Suffixes

section Strings

variable {sep : String} {c : Char} {front : List Char}

theorem intercalate_concat {l : List String} (hl : l ≠ []) (a : String) :
    sep.intercalate (l ++ [a]) = sep.intercalate l ++ sep ++ a := by
  rw [String.intercalate_append_of_ne_nil hl (by simp), String.intercalate_singleton]

/-- Parts behind a first one are recovered from the end, where they avoid the last
character of the separator. -/
theorem intercalate_suffixes_inj (hsep : sep.toList = front ++ [c]) {base base' : String}
    {parts parts' : List String} (hlen : parts.length = parts'.length)
    (hparts : ∀ s ∈ parts, c ∉ s.toList) (hparts' : ∀ s ∈ parts', c ∉ s.toList)
    (h : sep.intercalate (base :: parts) = sep.intercalate (base' :: parts')) :
    base = base' ∧ parts = parts' := by
  induction parts using List.reverseRecOn generalizing parts' with
  | nil =>
      obtain rfl : parts' = [] := List.length_eq_zero_iff.mp hlen.symm
      exact ⟨by simpa using h, rfl⟩
  | append_singleton front' last ih =>
      obtain ⟨others, last', rfl⟩ : ∃ others last', parts' = others ++ [last'] := by
        have hne : parts' ≠ [] := by
          rintro rfl
          simp at hlen
        exact ⟨_, _, (List.dropLast_append_getLast hne).symm⟩
      rw [← List.cons_append, ← List.cons_append, intercalate_concat (by simp),
        intercalate_concat (by simp), ← String.toList_inj] at h
      simp only [String.toList_append, hsep, List.append_assoc] at h
      have hjoined : (sep.intercalate (base :: front')).toList ++ ((front ++ [c]) ++ last.toList) =
          (sep.intercalate (base' :: others)).toList ++ ((front ++ [c]) ++ last'.toList) := by
        simpa only [List.append_assoc] using h
      have hsplit := append_separator_inj (hparts last (by simp)) (hparts' last' (by simp)) hjoined
      obtain ⟨hbase, hothers⟩ := ih (by simpa using hlen)
        (fun s hs => hparts s (by simp [hs])) (fun s hs => hparts' s (by simp [hs]))
        (String.toList_inj.mp hsplit.1)
      exact ⟨hbase, by rw [hothers, String.toList_inj.mp hsplit.2]⟩

/-- A joined list is recovered from the front, where its parts avoid the separator. -/
theorem intercalate_char_inj (hsep : sep.toList = [c]) {parts parts' : List String}
    (hne : parts ≠ []) (hne' : parts' ≠ []) (hparts : ∀ s ∈ parts, c ∉ s.toList)
    (hparts' : ∀ s ∈ parts', c ∉ s.toList)
    (h : sep.intercalate parts = sep.intercalate parts') : parts = parts' := by
  have hsplit : ∀ (a b : String) (rest : List String),
      (sep.intercalate (a :: b :: rest)).toList =
        a.toList ++ c :: (sep.intercalate (b :: rest)).toList := by
    intro a b rest
    rw [String.intercalate_cons_cons, String.toList_append, String.toList_append, hsep]
    simp
  induction parts generalizing parts' with
  | nil => exact absurd rfl hne
  | cons a rest ih =>
      cases parts' with
      | nil => exact absurd rfl hne'
      | cons a' rest' =>
          have ha := hparts a (by simp)
          have ha' := hparts' a' (by simp)
          cases rest with
          | nil =>
              cases rest' with
              | nil => simpa using h
              | cons b' others' =>
                  rw [String.intercalate_singleton, ← String.toList_inj, hsplit] at h
                  exact absurd (by simp [h]) ha
          | cons b others =>
              cases rest' with
              | nil =>
                  rw [String.intercalate_singleton, ← String.toList_inj, hsplit] at h
                  exact absurd (by simp [← h]) ha'
              | cons b' others' =>
                  rw [← String.toList_inj, hsplit, hsplit] at h
                  obtain ⟨hhead, htail⟩ := append_cons_inj ha ha' h
                  have hrest := ih (by simp) (by simp) (fun s hs => hparts s (by simp [hs]))
                    (fun s hs => hparts' s (by simp [hs])) (String.toList_inj.mp htail)
                  rw [String.toList_inj.mp hhead, hrest]

end Strings

namespace Text

/-- The code points `str.splitlines` breaks at. -/
def lineBreakPoints : List Nat :=
  [0xa, 0xb, 0xc, 0xd, 0x1c, 0x1d, 0x1e, 0x85, 0x2028, 0x2029]

def isLineBreak (c : Char) : Bool := c.toNat ∈ lineBreakPoints

/-- The worker of `splitlines`: `line` is the line under way, reversed. -/
def splitlinesGo : List Char → List Char → List (List Char)
  | line, [] => if line.isEmpty then [] else [line.reverse]
  | line, '\r' :: '\n' :: rest => line.reverse :: splitlinesGo [] rest
  | line, c :: rest =>
      if isLineBreak c then line.reverse :: splitlinesGo [] rest
      else splitlinesGo (c :: line) rest

/-- `str.splitlines()`. -/
def splitlines (s : List Char) : List (List Char) := splitlinesGo [] s

theorem splitlinesGo_line {line part rest : List Char}
    (h : ∀ c ∈ line, isLineBreak c = false) :
    splitlinesGo part (line ++ '\n' :: rest) =
      (part.reverse ++ line) :: splitlinesGo [] rest := by
  induction line generalizing part with
  | nil =>
      rw [List.nil_append, List.append_nil, splitlinesGo]
      · exact if_pos (by decide)
      · exact fun _ h => by cases h
  | cons c tail ih =>
      have hc : isLineBreak c = false := h c (by simp)
      have hreturn : c ≠ '\r' := by
        rintro rfl
        exact absurd hc (by decide)
      rw [List.cons_append, splitlinesGo, if_neg (by simp [hc]), ih fun d hd => h d (by simp [hd])]
      · simp
      · exact fun _ hcr => absurd hcr hreturn

/-- Lines that are joined, each with its end, are split again. -/
theorem splitlines_join {lines : List (List Char)}
    (h : ∀ line ∈ lines, ∀ c ∈ line, isLineBreak c = false) :
    splitlines (lines.flatMap (· ++ ['\n'])) = lines := by
  induction lines with
  | nil => rfl
  | cons line rest ih =>
      rw [List.flatMap_cons, List.append_assoc, List.singleton_append, splitlines,
        splitlinesGo_line fun c hc => h line (by simp) c hc, List.reverse_nil, List.nil_append]
      exact congrArg (line :: ·) (ih fun l hl => h l (by simp [hl]))

theorem partition_of_notMem {d : Char} {a b : List Char} (h : d ∉ a) :
    partition [d] (a ++ d :: b) = (a, true, b) := by
  induction a with
  | nil => simp [partition, List.isPrefixOf]
  | cons c rest ih =>
      rw [List.mem_cons, not_or] at h
      rw [List.cons_append, partition, ih h.2]
      simp [List.isPrefixOf, h.1]

/-- A text is its own strip where it neither begins nor ends with space. -/
theorem strip_eq_self {s : List Char} (hfirst : ∀ c ∈ s.head?, isSpace c = false)
    (hlast : ∀ c ∈ s.getLast?, isSpace c = false) : strip s = s := by
  have hreverse : ∀ c ∈ s.reverse.head?, isSpace c = false := by
    rwa [List.head?_reverse]
  rw [strip, dropWhile_eq_self hfirst, dropWhile_eq_self hreverse, List.reverse_reverse]

end Text

end A2aItk.Python
