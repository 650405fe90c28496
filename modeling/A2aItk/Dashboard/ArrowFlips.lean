import A2aItk.Dashboard.Pairwise
import A2aItk.Python.Digits
import A2aItk.Python.Joined

/-!
# Flipping the arrow of an edge

When the replacement of `pairwiseGroups` turns an edge of two agents around.
-/

namespace A2aItk.Dashboard

open Python
open Text (AllSpace AllDecimal digitsValue)
open Traversal (readIndices readIndices_eq_ok_iff parseInt_eq_ok_iff)

/-- Some digits, and nothing else. -/
def IsDigits (s : List Char) : Prop := s ≠ [] ∧ ∀ c ∈ s, c.isDigit = true

/-- An arrow with digits directly before and after it. -/
structure ArrowAt (s before source target after : List Char) : Prop where
  text : s = before ++ (source ++ '-' :: '>' :: (target ++ after))
  source : IsDigits source
  target : IsDigits target
  before : ∀ c ∈ before.getLast?, c.isDigit = false
  after : ∀ c ∈ after.head?, c.isDigit = false

/-- A zero is written as one digit. -/
def ShortZero (digits : List Char) : Prop := digits = ['0'] ∨ ∃ c ∈ digits, c ≠ '0'

/-- Both indices touch the arrow, nothing but space follows, and zeros are short. -/
def Flippable (edge : String) : Prop :=
  ∃ before source target after, ArrowAt edge.toList before source target after ∧
    AllSpace after ∧ ShortZero source ∧ ShortZero target

section Replacing

variable {c : Char} {s rest source tail : List Char}

/-- The pattern matches where the text begins. -/
def MatchesHere (s : List Char) : Prop :=
  s.takeWhile Char.isDigit ≠ [] ∧ ∃ tail, s.dropWhile Char.isDigit = '-' :: '>' :: tail ∧
    tail.takeWhile Char.isDigit ≠ []

theorem replaceArrow_of_matches (hsource : (c :: rest).takeWhile Char.isDigit = source)
    (hne : source ≠ []) (htail : (c :: rest).dropWhile Char.isDigit = '-' :: '>' :: tail)
    (htarget : tail.takeWhile Char.isDigit ≠ []) :
    replaceArrow (c :: rest) = flip source ++ '-' :: '>' ::
      (flip (tail.takeWhile Char.isDigit) ++ tail.dropWhile Char.isDigit) := by
  obtain ⟨d, digits, rfl⟩ := List.exists_cons_of_ne_nil hne
  rw [replaceArrow, hsource, htail]
  exact if_neg htarget

theorem replaceArrow_of_not_matches (h : ¬ MatchesHere (c :: rest)) :
    replaceArrow (c :: rest) = c :: replaceArrow rest := by
  rw [replaceArrow]
  split
  · rename_i d digits tail hsource htail
    by_cases htarget : tail.takeWhile Char.isDigit = []
    · exact if_pos htarget
    · exact absurd ⟨by rw [hsource]; simp, tail, htail, htarget⟩ h
  · rfl

/-- Text before the arrow that has no digit next to it is passed over. -/
theorem replaceArrow_of_arrowAt {before target after : List Char}
    (h : ArrowAt s before source target after) (hbefore : '-' ∉ before) :
    replaceArrow s = before ++ (flip source ++ '-' :: '>' :: (flip target ++ after)) := by
  obtain ⟨rfl, hsource, htarget, hlast, hafter⟩ := h
  have harrow := span_append (r := '-' :: '>' :: (target ++ after)) hsource.2
    (fun c hc => by cases hc; rfl)
  have htail := span_append htarget.2 hafter
  induction before with
  | nil =>
      obtain ⟨d, digits, rfl⟩ := List.exists_cons_of_ne_nil hsource.1
      rw [List.nil_append, List.nil_append]
      have hmatch := replaceArrow_of_matches harrow.1 hsource.1 harrow.2
        (by rw [htail.1]; exact htarget.1)
      rw [htail.1, htail.2] at hmatch
      exact hmatch
  | cons c front ih =>
      have hno : ¬ MatchesHere (c :: (front ++ (source ++ '-' :: '>' :: (target ++ after)))) := by
        rintro ⟨-, tail, hdrop, -⟩
        have hkept : (c :: front).dropWhile Char.isDigit ≠ [] := by
          rw [Ne, List.dropWhile_eq_nil_iff]
          intro hall
          have hin := List.getLast_mem (List.cons_ne_nil c front)
          have hfalse := hlast _ (List.getLast?_eq_some_getLast (List.cons_ne_nil c front))
          rw [hall _ hin] at hfalse
          cases hfalse
        rw [← List.cons_append, List.dropWhile_append, if_neg (by simpa using hkept)] at hdrop
        obtain ⟨d, kept, heq⟩ := List.exists_cons_of_ne_nil hkept
        rw [heq, List.cons_append, List.cons.injEq] at hdrop
        refine hbefore ((List.dropWhile_sublist Char.isDigit).subset ?_)
        rw [heq, hdrop.1]
        exact List.mem_cons_self
      rw [List.cons_append, replaceArrow_of_not_matches hno, ih (fun hin => hbefore (by simp [hin]))
        fun d hd => ?_, List.cons_append]
      refine hlast d ?_
      cases front with
      | nil => cases hd
      | cons e others => rwa [List.getLast?_cons_cons]

/-- The replacement leaves the text alone or finds an arrow. -/
theorem replaceArrow_cases (s : List Char) :
    replaceArrow s = s ∨ ∃ before source target after,
      ArrowAt s before source target after ∧
        replaceArrow s = before ++ (flip source ++ '-' :: '>' :: (flip target ++ after)) := by
  induction s with
  | nil => exact .inl rfl
  | cons c rest ih =>
      have hhead : ∀ l : List Char, ∀ d ∈ (l.dropWhile Char.isDigit).head?,
          d.isDigit = false := by
        intro l d hd
        have hnot := List.head?_dropWhile_not Char.isDigit l
        rw [Option.mem_def] at hd
        rw [hd] at hnot
        simpa using hnot
      by_cases hmatch : MatchesHere (c :: rest)
      · obtain ⟨hsource, tail, htail, htarget⟩ := hmatch
        refine .inr ⟨[], _, _, _, ⟨?_, ⟨hsource, fun d => List.mem_takeWhile_imp⟩,
          ⟨htarget, fun d => List.mem_takeWhile_imp⟩, fun d hd => (by cases hd), hhead tail⟩,
          replaceArrow_of_matches rfl hsource htail htarget⟩
        rw [List.nil_append, List.takeWhile_append_dropWhile, ← htail,
          List.takeWhile_append_dropWhile]
      · rw [replaceArrow_of_not_matches hmatch]
        rcases ih with hsame | ⟨before, source, target, after, hat, hflipped⟩
        · exact .inl (by rw [hsame])
        · refine .inr ⟨c :: before, source, target, after,
            ⟨by rw [hat.text, List.cons_append], hat.source, hat.target, ?_, hat.after⟩,
            by rw [hflipped, List.cons_append]⟩
          intro d hd
          cases before with
          | cons e others => exact hat.before d (by rwa [List.getLast?_cons_cons] at hd)
          | nil =>
              cases hd
              by_contra hdigit
              have hall : ∀ e ∈ c :: source, e.isDigit = true := by
                exact List.forall_mem_cons.mpr ⟨by simpa using hdigit, hat.source.2⟩
              have hparts := span_append (r := '-' :: '>' :: (target ++ after)) hall
                (fun e he => by cases he; rfl)
              have htail := span_append hat.target.2 hat.after
              refine hmatch ⟨?_, target ++ after, ?_, by rw [htail.1]; exact hat.target.1⟩
              · rw [hat.text, List.nil_append, ← List.cons_append, hparts.1]
                exact List.cons_ne_nil _ _
              · rw [hat.text, List.nil_append, ← List.cons_append, hparts.2]

end Replacing

section Spelling

variable {s before source target after : List Char} {n m : ℕ}

/-- Decimal digits of a number, with space around them. -/
def SpelledNumber (s : List Char) (n : ℕ) : Prop :=
  ∃ front digits back, AllSpace front ∧ AllSpace back ∧ s = front ++ (digits ++ back) ∧
    digits ≠ [] ∧ AllDecimal digits ∧ digitsValue digits = n

theorem strip_of_spelledNumber {front digits back : List Char} (hfront : AllSpace front)
    (hback : AllSpace back) (hdigits : AllDecimal digits) :
    Text.strip (front ++ (digits ++ back)) = digits :=
  Text.strip_spaced hfront hback fun c hc => Text.not_isSpace_of_decimal (hdigits c hc)

theorem SpelledNumber.unique (h : SpelledNumber s n) (h' : SpelledNumber s m) : n = m := by
  obtain ⟨front, digits, back, hfront, hback, rfl, -, hdigits, rfl⟩ := h
  obtain ⟨front', digits', back', hfront', hback', heq, -, hdigits', rfl⟩ := h'
  have hstrip := strip_of_spelledNumber hfront hback hdigits
  rw [heq, strip_of_spelledNumber hfront' hback' hdigits'] at hstrip
  rw [hstrip]

theorem spelledNumber_iff :
    SpelledNumber s n ↔
      Text.isDigit (Text.strip s) = true ∧ Text.int (Text.strip s) = some (n : Int) := by
  constructor
  · rintro ⟨front, digits, back, hfront, hback, rfl, hne, hdigits, rfl⟩
    rw [strip_of_spelledNumber hfront hback hdigits]
    have hdigit : Text.isDigit digits = true := by
      rw [Text.isDigit, Bool.and_eq_true, List.all_eq_true]
      exact ⟨by simpa using hne, fun c hc => by simp [Text.isDigitChar, hdigits c hc]⟩
    exact ⟨hdigit, (Text.int_eq_some_iff hdigit).mpr ⟨hdigits, rfl⟩⟩
  · rintro ⟨hdigit, hint⟩
    obtain ⟨hdigits, hvalue⟩ := (Text.int_eq_some_iff hdigit).mp hint
    obtain ⟨front, back, hfront, hback, heq⟩ := Text.exists_strip s
    refine ⟨front, Text.strip s, back, hfront, hback, heq, ?_, hdigits, hvalue⟩
    intro hnil
    rw [hnil] at hdigit
    cases hdigit

theorem SpelledNumber.ne_dash (h : SpelledNumber s n) : '-' ∉ s := by
  obtain ⟨front, digits, back, hfront, hback, rfl, -, hdigits, -⟩ := h
  simp only [List.mem_append, not_or]
  refine ⟨fun hin => ?_, fun hin => ?_, fun hin => ?_⟩
  · exact absurd (hfront _ hin) (by decide)
  · exact absurd (hdigits _ hin) (by decide)
  · exact absurd (hback _ hin) (by decide)

theorem exists_of_partition {sep : List Char} {s a b : List Char}
    (h : Text.partition sep s = (a, true, b)) : s = a ++ (sep ++ b) := by
  induction s generalizing a with
  | nil => cases h
  | cons c rest ih =>
      rw [Text.partition] at h
      split at h
      · rename_i hprefix
        obtain ⟨tail, htail⟩ := List.isPrefixOf_iff_prefix.mp hprefix
        cases h
        rw [List.nil_append, ← htail, List.drop_left]
      · obtain ⟨ha, hfound, hb⟩ : c :: (Text.partition sep rest).1 = a ∧
            (Text.partition sep rest).2.1 = true ∧ (Text.partition sep rest).2.2 = b := by
          simpa [Prod.ext_iff] using h
        rw [← ha, List.cons_append, ← ih (Prod.ext rfl (Prod.ext hfound hb))]

/-- An edge is read where both sides of its arrow are. -/
theorem readIndices_arrow (hs : '-' ∉ before) (ht : '-' ∉ after) :
    readIndices (String.ofList (before ++ '-' :: '>' :: after)) = .ok ((n : Int), (m : Int)) ↔
      SpelledNumber before n ∧ SpelledNumber after m := by
  have hsplit : Text.split ['-', '>'] (String.ofList (before ++ '-' :: '>' :: after)).toList =
      [before, after] := by
    rw [String.toList_ofList]
    exact Text.split_join rfl hs ht
  rw [readIndices_eq_ok_iff, spelledNumber_iff, spelledNumber_iff]
  constructor
  · rintro ⟨u, v, huv, hu, hv, hi, hj⟩
    obtain ⟨rfl, rfl⟩ : before = u ∧ after = v := by simpa using hsplit.symm.trans huv
    exact ⟨⟨hu, parseInt_eq_ok_iff.mp hi⟩, hv, parseInt_eq_ok_iff.mp hj⟩
  · rintro ⟨⟨hu, hi⟩, hv, hj⟩
    exact ⟨before, after, hsplit, hu, hv, parseInt_eq_ok_iff.mpr hi, parseInt_eq_ok_iff.mpr hj⟩

theorem exists_arrow_of_readIndices {edge : String}
    (h : readIndices edge = .ok ((n : Int), (m : Int))) :
    ∃ before after, edge.toList = before ++ '-' :: '>' :: after ∧
      SpelledNumber before n ∧ SpelledNumber after m := by
  obtain ⟨u, v, hsplit, hu, hv, hi, hj⟩ := readIndices_eq_ok_iff.mp h
  refine ⟨u, v, exists_of_partition (Text.partition_of_split_eq_pair (by simp) hsplit), ?_, ?_⟩
  · exact spelledNumber_iff.mpr ⟨hu, parseInt_eq_ok_iff.mp hi⟩
  · exact spelledNumber_iff.mpr ⟨hv, parseInt_eq_ok_iff.mp hj⟩

end Spelling

section Values

variable {before source target after digits : List Char} {n : ℕ}

theorem IsDigits.allDecimal (h : IsDigits digits) : AllDecimal digits := fun c hc => by
  rw [Text.decimal_of_isDigit (h.2 c hc)]
  rfl

theorem isDigits_flip (digits : List Char) : IsDigits (flip digits) := by
  unfold flip
  split
  · exact ⟨by simp, List.forall_mem_singleton.mpr (by decide)⟩
  · exact ⟨by simp, List.forall_mem_singleton.mpr (by decide)⟩

theorem digitsValue_pos (h : IsDigits digits) : 0 < digitsValue digits ↔ ∃ c ∈ digits, c ≠ '0' := by
  induction digits using List.reverseRecOn with
  | nil => exact absurd rfl h.1
  | append_singleton front c ih =>
      have hc : c.isDigit = true := h.2 c (by simp)
      have hvalue : digitsValue (front ++ [c]) = digitsValue front * 10 + (c.toNat - 48) := by
        rw [Text.digitsValue_append]
        simp [digitsValue, Text.digitsFrom, Text.decimal_of_isDigit hc]
      have hzero : c ≠ '0' ↔ 0 < c.toNat - 48 := by
        have hrange : '0'.toNat ≤ c.toNat := (Char.isDigit_iff_toNat.mp hc).1
        have hcode : '0'.toNat = 48 := rfl
        rw [Ne, ← Char.toNat_inj]
        omega
      have hfront : 0 < digitsValue front ↔ ∃ c ∈ front, c ≠ '0' := by
        by_cases hne : front = []
        · subst hne
          simp [digitsValue, Text.digitsFrom]
        · exact ih ⟨hne, fun d hd => h.2 d (by simp [hd])⟩
      simp only [List.mem_append, List.mem_singleton, or_and_right, exists_or, exists_eq_left,
        ← hfront, hzero, hvalue]
      omega

/-- The replacement of one index is right just where its zero is short. -/
theorem digitsValue_flip (h : IsDigits digits) (hn : digitsValue digits < 2) :
    digitsValue (flip digits) = 1 - digitsValue digits ↔ ShortZero digits := by
  have hpos := digitsValue_pos h
  unfold flip ShortZero
  split
  · rename_i hzero
    subst hzero
    exact iff_of_true rfl (.inl rfl)
  · rename_i hzero
    rw [← hpos]
    simp only [hzero, false_or]
    have hvalue : digitsValue ['0'] = 0 := rfl
    omega

theorem append_eq_of_space {front back : List Char} (hback : AllSpace back)
    (hsource : IsDigits source) (h : before ++ source = front ++ back) : back = [] := by
  by_contra hne
  have hlast : (before ++ source).getLast? = (front ++ back).getLast? := by rw [h]
  rw [List.getLast?_append_of_ne_nil _ hsource.1, List.getLast?_append_of_ne_nil _ hne,
    List.getLast?_eq_some_getLast hsource.1, List.getLast?_eq_some_getLast hne,
    Option.some_inj] at hlast
  have hspace := hback _ (List.getLast_mem hne)
  rw [← hlast, Text.not_isSpace_of_isDigit (hsource.2 _ (List.getLast_mem hsource.1))] at hspace
  cases hspace

/-- Digits are not space: where they overlap there is nothing. -/
theorem eq_nil_of_space_of_decimal {s : List Char} (hspace : AllSpace s) (hdigits : AllDecimal s) :
    s = [] := by
  rw [List.eq_nil_iff_forall_not_mem]
  intro c hc
  have hno := Text.not_isSpace_of_decimal (hdigits c hc)
  rw [hspace c hc] at hno
  cases hno

/-- Before the arrow the digits end the index. -/
theorem spelledNumber_flip_before (hsource : IsDigits source) (hn : n < 2)
    (h : SpelledNumber (before ++ source) n) :
    SpelledNumber (before ++ flip source) (1 - n) ↔ ShortZero source := by
  obtain ⟨front, digits, back, hfront, hback, htext, hne, hdigits, hvalue⟩ := h
  rw [← List.append_assoc] at htext
  obtain rfl := append_eq_of_space hback hsource htext
  rw [List.append_nil] at htext
  obtain ⟨lead, rfl, rfl⟩ : ∃ lead, before = front ++ lead ∧ digits = lead ++ source := by
    rcases List.append_eq_append_iff.mp htext with ⟨rest, hrest, hover⟩ | ⟨lead, hbefore, hlead⟩
    · have hnil : rest = [] := by
        refine eq_nil_of_space_of_decimal (fun c hc => hfront c (by simp [hrest, hc])) ?_
        exact fun c hc => hsource.allDecimal c (by simp [hover, hc])
      subst hnil
      exact ⟨[], by simpa using hrest.symm, by simpa using hover.symm⟩
    · exact ⟨lead, hbefore, hlead⟩
  have hpow : 10 ≤ 10 ^ source.length :=
    Nat.le_self_pow (by simpa using hsource.1) 10
  rw [Text.digitsValue_append] at hvalue
  have hlead : digitsValue lead = 0 := by
    by_contra hpos
    have := Nat.mul_le_mul (Nat.one_le_iff_ne_zero.mpr hpos) hpow
    omega
  rw [hlead, Nat.zero_mul, Nat.zero_add] at hvalue
  have hflipped : SpelledNumber (front ++ lead ++ flip source) (digitsValue (flip source)) := by
    refine ⟨front, lead ++ flip source, [], hfront, fun c hc => (by cases hc), by simp, ?_, ?_, ?_⟩
    · simp [(isDigits_flip source).1]
    · intro c hc
      rcases List.mem_append.mp hc with hin | hin
      · exact hdigits c (by simp [hin])
      · exact (isDigits_flip source).allDecimal c hin
    · rw [Text.digitsValue_append, hlead, Nat.zero_mul, Nat.zero_add]
  rw [← digitsValue_flip hsource (by omega), hvalue]
  constructor
  · exact fun hread => hflipped.unique hread
  · exact fun heq => heq ▸ hflipped

/-- After the arrow the digits begin the index, and have to be all of it. -/
theorem spelledNumber_flip_after (htarget : IsDigits target) (hn : n < 2)
    (h : SpelledNumber (target ++ after) n) :
    SpelledNumber (flip target ++ after) (1 - n) ↔ AllSpace after ∧ ShortZero target := by
  obtain ⟨front, digits, back, hfront, hback, htext, hne, hdigits, hvalue⟩ := h
  have hstart : front = [] := by
    cases front with
    | nil => rfl
    | cons c rest =>
        obtain ⟨d, others, rfl⟩ := List.exists_cons_of_ne_nil htarget.1
        have hd : d = c := (List.cons.inj htext).1
        have hspace := hfront c (by simp)
        rw [← hd, Text.not_isSpace_of_isDigit (htarget.2 d (by simp))] at hspace
        cases hspace
  subst hstart
  rw [List.nil_append] at htext
  obtain ⟨others, rfl, rfl⟩ : ∃ others, digits = target ++ others ∧ after = others ++ back := by
    rcases List.append_eq_append_iff.mp htext with ⟨others, hrest, hover⟩ | ⟨rest, hrest, hover⟩
    · exact ⟨others, hrest, hover⟩
    · have hnil : rest = [] := by
        refine eq_nil_of_space_of_decimal (fun c hc => hback c (by simp [hover, hc])) ?_
        exact fun c hc => htarget.allDecimal c (by simp [hrest, hc])
      subst hnil
      exact ⟨[], by simpa using hrest.symm, by simpa using hover.symm⟩
  have hothers : AllDecimal others := fun c hc => hdigits c (by simp [hc])
  have hflipped : SpelledNumber (flip target ++ (others ++ back))
      (digitsValue (flip target) * 10 ^ others.length + digitsValue others) := by
    refine ⟨[], flip target ++ others, back, fun c hc => (by cases hc), hback, by simp, ?_, ?_,
      Text.digitsValue_append⟩
    · simp [(isDigits_flip target).1]
    · intro c hc
      rcases List.mem_append.mp hc with hin | hin
      · exact (isDigits_flip target).allDecimal c hin
      · exact hothers c hin
  rw [Text.digitsValue_append] at hvalue
  by_cases hnil : others = []
  · subst hnil
    have hown : digitsValue target = n := by simpa [digitsValue, Text.digitsFrom] using hvalue
    rw [← digitsValue_flip htarget (by omega), hown]
    constructor
    · intro hread
      refine ⟨hback, ?_⟩
      have heq := hflipped.unique hread
      simpa [digitsValue, Text.digitsFrom] using heq
    · rintro ⟨-, heq⟩
      rw [← heq]
      simpa [digitsValue, Text.digitsFrom] using hflipped
  · have hpow : 10 ≤ 10 ^ others.length := Nat.le_self_pow (by simpa using hnil) 10
    refine iff_of_false (fun hread => ?_) fun hspace => ?_
    · have heq := hflipped.unique hread
      have hlarge : ∀ k : ℕ, k ≠ 0 → 10 ≤ k * 10 ^ others.length := fun k hk => by
        have := Nat.mul_le_mul (Nat.one_le_iff_ne_zero.mpr hk) hpow
        omega
      by_cases hfirst : digitsValue target = 0
      · rw [hfirst, Nat.zero_mul, Nat.zero_add] at hvalue
        by_cases hsecond : digitsValue (flip target) = 0
        · rw [hsecond, Nat.zero_mul, Nat.zero_add] at heq
          omega
        · have := hlarge _ hsecond
          omega
      · have := hlarge _ hfirst
        omega
    · exact hnil (eq_nil_of_space_of_decimal (fun c hc => hspace.1 c (by simp [hc])) hothers)

end Values

section Flipping

variable {edge : String} {u v : ℕ}

/-- The arrow the replacement finds is the one the edge is read at. -/
theorem ArrowAt.sides {s left right before source target after : List Char}
    (h : ArrowAt s before source target after) (htext : s = left ++ '-' :: '>' :: right)
    (hleft : '-' ∉ left) (hright : '-' ∉ right) :
    left = before ++ source ∧ right = target ++ after := by
  have hcount : (before ++ source).count '-' + (1 + (target ++ after).count '-') = 1 := by
    have hboth := congrArg (List.count '-') (h.text.symm.trans htext)
    simpa [List.count_append, List.count_cons, List.count_eq_zero.mpr hleft,
      List.count_eq_zero.mpr hright, Nat.add_assoc, Nat.add_comm, Nat.add_left_comm] using hboth
  have hfront : '-' ∉ before ++ source := List.count_eq_zero.mp (by omega)
  have heq : left ++ '-' :: ('>' :: right) =
      (before ++ source) ++ '-' :: ('>' :: (target ++ after)) := by
    rw [← htext, h.text, List.append_assoc]
  obtain ⟨hl, hr⟩ := append_cons_inj hleft hfront heq
  exact ⟨hl, (List.cons.inj hr).2⟩

theorem readIndices_replaced {before source target after : List Char}
    (hsource : SpelledNumber (before ++ source) u) (htarget : SpelledNumber (target ++ after) v) :
    readIndices (String.ofList
        (before ++ (flip source ++ '-' :: '>' :: (flip target ++ after)))) =
      .ok (((1 - u : ℕ) : Int), ((1 - v : ℕ) : Int)) ↔
      SpelledNumber (before ++ flip source) (1 - u) ∧
        SpelledNumber (flip target ++ after) (1 - v) := by
  have hdash : ∀ digits, '-' ∉ flip digits := fun digits hin => by
    have hdigit := (isDigits_flip digits).2 _ hin
    exact absurd hdigit (by decide)
  rw [← List.append_assoc]
  refine readIndices_arrow ?_ ?_
  · rw [List.mem_append, not_or]
    exact ⟨fun hin => hsource.ne_dash (by simp [hin]), hdash source⟩
  · rw [List.mem_append, not_or]
    exact ⟨hdash target, fun hin => htarget.ne_dash (by simp [hin])⟩

/-- The flipped edge has the other indices just where the edge is flippable. -/
theorem readIndices_flipEdge (h : readIndices edge = .ok ((u : Int), (v : Int))) (hu : u < 2)
    (hv : v < 2) :
    readIndices (flipEdge edge) = .ok (((1 - u : ℕ) : Int), ((1 - v : ℕ) : Int)) ↔
      Flippable edge := by
  obtain ⟨left, right, htext, hleft, hright⟩ := exists_arrow_of_readIndices h
  constructor
  · intro hread
    rcases replaceArrow_cases edge.toList with hsame | ⟨before, source, target, after, hat, hflip⟩
    · rw [flipEdge, hsame, String.ofList_toList, h] at hread
      have hpair := Except.ok.inj hread
      rw [Prod.mk.injEq, Int.natCast_inj] at hpair
      omega
    · obtain ⟨rfl, rfl⟩ := hat.sides htext hleft.ne_dash hright.ne_dash
      rw [flipEdge, hflip, readIndices_replaced hleft hright,
        spelledNumber_flip_before hat.source hu hleft,
        spelledNumber_flip_after hat.target hv hright] at hread
      exact ⟨before, source, target, after, hat, hread.2.1, hread.1, hread.2.2⟩
  · rintro ⟨before, source, target, after, hat, hspace, hsource, htarget⟩
    obtain ⟨rfl, rfl⟩ := hat.sides htext hleft.ne_dash hright.ne_dash
    have hbefore : '-' ∉ before := fun hin => hleft.ne_dash (by simp [hin])
    rw [flipEdge, replaceArrow_of_arrowAt hat hbefore, readIndices_replaced hleft hright,
      spelledNumber_flip_before hat.source hu hleft,
      spelledNumber_flip_after hat.target hv hright]
    exact ⟨hsource, hspace, htarget⟩

end Flipping

end A2aItk.Dashboard
