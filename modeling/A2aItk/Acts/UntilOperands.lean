import A2aItk.Acts.Until
import A2aItk.Acts.PathText

/-!
# Operands of polling conditions

The texts that may stand for a value in a condition, the values they stand for, and how
the runner reads them back, one at a time and in a list.

## Implementation notes

A bare word is any other text without blanks and without the comma, which ends an operand.
Words that spell a number without being a decimal number belong to it: what is read in
their place is the interpreter's affair.
-/

namespace A2aItk.Acts

open Python

section Operands

def IsQuote (c : Char) : Prop := c = '\'' ∨ c = '"'

/-- A text between two equal quotes. -/
def QuotedText (text : List Char) : Prop :=
  ∃ quote body, IsQuote quote ∧ text = quote :: (body ++ [quote])

/-- Digits, with a sign in front or a fraction behind. -/
def DecimalText (text : List Char) : Prop :=
  ∃ sign whole fraction, text = sign ++ whole ++ fraction ∧
    (sign = [] ∨ sign = ['+'] ∨ sign = ['-']) ∧
    (whole ≠ [] ∧ ∀ c ∈ whole, c.isDigit = true) ∧
    (fraction = [] ∨ ∃ digits, fraction = '.' :: digits ∧ digits ≠ [] ∧
      ∀ c ∈ digits, c.isDigit = true)

/-- A text that is none of the words for a constant. -/
def Unreserved (text : List Char) : Prop :=
  text ≠ "true".toList ∧ text ≠ "false".toList ∧ text ≠ "null".toList ∧ text ≠ "none".toList

/-- A word that stands for itself. -/
structure BareWord (text : List Char) : Prop where
  nonempty : text ≠ []
  solid : ∀ c ∈ text, Text.isSpace c = false
  commaless : ',' ∉ text
  unquoted : ¬QuotedText text
  unreserved : Unreserved text
  notDecimal : ¬DecimalText text

/-- What may be written as an operand. -/
inductive Operand
  | quoted (quote : Char) (body : List Char) (isQuote : IsQuote quote) (free : quote ∉ body)
  | word (text : List Char) (bare : BareWord text)
  | int (i : ℤ)
  | bool (b : Bool)
  | null
  | noneWord

namespace Operand

/-- An operand as it is written. -/
def text : Operand → List Char
  | quoted quote body _ _ => quote :: (body ++ [quote])
  | word text _ => text
  | int i => (toString i).toList
  | bool true => "true".toList
  | bool false => "false".toList
  | null => "null".toList
  | noneWord => "none".toList

/-- The value an operand stands for. -/
def denotes : Operand → Value
  | quoted _ body _ _ => .str (String.ofList body)
  | word text _ => .str (String.ofList text)
  | int i => .int i
  | bool b => .bool b
  | null | noneWord => .null

/-- The number parsers do not accept the operand as a word. -/
def NoNumber (py : Interpreter) : Operand → Prop
  | word text _ => Text.int text = none ∧ py.float (String.ofList text) = none
  | _ => True

end Operand

end Operands

section Literals

variable {py : Interpreter}

theorem not_isSpace_of_isQuote {c : Char} (h : IsQuote c) : Text.isSpace c = false := by
  rcases h with rfl | rfl <;> decide

theorem not_isSpace_of_all {text : List Char}
    (h : (text.all fun c => !Text.isSpace c) = true) : ∀ c ∈ text, Text.isSpace c = false := by
  intro c hc
  simpa using List.all_eq_true.mp h c hc

/-- A rendered number is read back. -/
theorem int_toString (i : ℤ) : Text.int (toString i).toList = some i := by
  cases i with
  | ofNat n =>
      have hdigits : ∀ c ∈ (Nat.repr n).toList, c.isDigit = true :=
        fun c hc => Text.isDigit_of_mem_repr hc
      change Text.int (Nat.repr n).toList = _
      rw [Text.int_of_isDigit (Text.repr_ne_nil n) hdigits, Nat.toList_repr,
        Nat.ofDigitChars_ten_toDigits]
      rfl
  | negSucc n =>
      have htext : (toString (Int.negSucc n)).toList = '-' :: (Nat.repr (n + 1)).toList := by
        change ("-" ++ Nat.repr (n + 1)).toList = _
        simp
      rw [htext, Text.int, Text.natLiteral_repr]
      rfl

/-- What a rendered number is made of. -/
theorem isDigit_or_minus {i : ℤ} {c : Char} (h : c ∈ (toString i).toList) :
    c.isDigit = true ∨ c = '-' := by
  cases i with
  | ofNat n => exact .inl (Text.isDigit_of_mem_repr h)
  | negSucc n =>
      change c ∈ ("-" ++ Nat.repr (n + 1)).toList at h
      rw [String.toList_append, List.mem_append] at h
      rcases h with hminus | hdigit
      · exact .inr (List.mem_singleton.mp hminus)
      · exact .inl (Text.isDigit_of_mem_repr hdigit)

theorem toString_int_ne_nil (i : ℤ) : (toString i).toList ≠ [] := by
  obtain ⟨c, rest, hchars, -⟩ := head_toString i
  rw [hchars]
  exact List.cons_ne_nil c rest

theorem getLast?_quoted (quote : Char) (body : List Char) :
    (quote :: (body ++ [quote])).getLast? = some quote := by
  rw [← List.cons_append]
  exact List.getLast?_concat

namespace Operand

theorem text_ne_nil (v : Operand) : v.text ≠ [] := by
  cases v with
  | quoted quote body isQuote free => simp [text]
  | word text bare => exact bare.nonempty
  | int i => exact toString_int_ne_nil i
  | bool b => cases b <;> decide
  | null => decide
  | noneWord => decide

/-- An operand without quotes around it has no blank. -/
theorem solid_of_not_quoted {v : Operand} (h : ¬QuotedText v.text) :
    ∀ c ∈ v.text, Text.isSpace c = false := by
  cases v with
  | quoted quote body isQuote free => exact absurd ⟨quote, body, isQuote, rfl⟩ h
  | word text bare => exact bare.solid
  | int i =>
      intro c hc
      rcases isDigit_or_minus hc with hdigit | rfl
      · exact Text.not_isSpace_of_isDigit hdigit
      · decide
  | bool b => cases b <;> exact not_isSpace_of_all (by decide)
  | null => exact not_isSpace_of_all (by decide)
  | noneWord => exact not_isSpace_of_all (by decide)

/-- An operand without quotes around it has no comma. -/
theorem commaless_of_not_quoted {v : Operand} (h : ¬QuotedText v.text) : ',' ∉ v.text := by
  cases v with
  | quoted quote body isQuote free => exact absurd ⟨quote, body, isQuote, rfl⟩ h
  | word text bare => exact bare.commaless
  | int i =>
      intro hcomma
      rcases isDigit_or_minus hcomma with hdigit | hminus
      · exact absurd hdigit (by decide)
      · exact absurd hminus (by decide)
  | bool b => cases b <;> decide
  | null => decide
  | noneWord => decide

/-- Every operand shows in a list of tokens. -/
theorem exists_mem_text (v : Operand) : ∃ c ∈ v.text, Text.isSpace c = false ∧ c ≠ ',' := by
  by_cases hquoted : QuotedText v.text
  · obtain ⟨quote, body, hquote, htext⟩ := hquoted
    refine ⟨quote, htext ▸ List.mem_cons_self, not_isSpace_of_isQuote hquote, ?_⟩
    rcases hquote with rfl | rfl <;> decide
  · obtain ⟨c, hc⟩ := List.exists_mem_of_ne_nil v.text v.text_ne_nil
    refine ⟨c, hc, solid_of_not_quoted hquoted c hc, ?_⟩
    rintro rfl
    exact commaless_of_not_quoted hquoted hc

theorem strip_text (v : Operand) : Text.strip v.text = v.text := by
  by_cases hquoted : QuotedText v.text
  · obtain ⟨quote, body, hquote, htext⟩ := hquoted
    have hspace := not_isSpace_of_isQuote hquote
    rw [htext]
    apply Text.strip_eq_self
    · simp [hspace]
    · simp [getLast?_quoted, hspace]
  · have hsolid := solid_of_not_quoted hquoted
    apply Text.strip_eq_self
    · exact fun c hc => hsolid c (List.mem_of_mem_head? hc)
    · exact fun c hc => hsolid c (List.mem_of_mem_getLast? hc)

end Operand

/-- A quoted text is the text between its quotes. -/
theorem untilLiteral_of_quoted {token body : List Char} {quote : Char} (hquote : IsQuote quote)
    (h : Text.strip token = quote :: (body ++ [quote])) :
    untilLiteral py token = .str (String.ofList body) := by
  have hinner : ((quote :: (body ++ [quote])).drop 1).dropLast = body := by
    rw [List.drop_succ_cons, List.drop_zero, List.dropLast_concat]
  have hguard : (decide (quote = quote) && (decide (quote = '\'') || decide (quote = '"'))) =
      true := by
    rcases hquote with rfl | rfl <;> decide
  have hlast := getLast?_quoted quote body
  unfold untilLiteral
  dsimp only
  rw [h, hlast]
  cases body with
  | nil =>
      rw [List.nil_append] at hinner ⊢
      dsimp only
      rw [if_pos hguard, hinner]
  | cons c rest =>
      rw [List.cons_append] at hinner ⊢
      dsimp only
      rw [if_pos hguard, hinner]

/-- Any other text is taken for a word or a number. -/
theorem untilLiteral_of_not_quoted {token : List Char} (h : ¬QuotedText (Text.strip token)) :
    untilLiteral py token = untilLiteral.bareLiteral py (Text.strip token) := by
  unfold untilLiteral
  dsimp only
  split
  next first second rest last htext hlast =>
    rw [htext] at h hlast
    apply if_neg
    rw [Bool.and_eq_true, Bool.or_eq_true, decide_eq_true_eq, decide_eq_true_eq,
      decide_eq_true_eq]
    rintro ⟨rfl, hquote⟩
    apply h
    obtain ⟨front, hfront⟩ := List.getLast?_eq_some_iff.mp hlast
    cases front with
    | nil => simp at hfront
    | cons c body =>
        obtain ⟨rfl, hbody⟩ := List.cons.inj hfront
        exact ⟨first, body, hquote, congrArg (List.cons first) hbody⟩
  · rfl

section Words

variable {text : List Char}

theorem bareLiteral_of_unreserved (h : Unreserved text) :
    untilLiteral.bareLiteral py text =
      ((Text.int text).map Value.int).getD
        (((py.float (String.ofList text)).map fun x => Value.scalar (.float x)).getD
          (.str (String.ofList text))) := by
  obtain ⟨htrue, hfalse, hnull, hnone⟩ := h
  have hneither : ¬((decide (text = "null".toList) || decide (text = "none".toList)) = true) := by
    rw [Bool.or_eq_true, decide_eq_true_eq, decide_eq_true_eq]
    exact not_or.mpr ⟨hnull, hnone⟩
  unfold untilLiteral.bareLiteral
  rw [if_neg htrue, if_neg hfalse, if_neg hneither]
  cases Text.int text with
  | some i => rfl
  | none => cases py.float (String.ofList text) <;> rfl

/-- A text is read where neither number parser accepts it. -/
theorem bareLiteral_eq_str {t : String} (h : untilLiteral.bareLiteral py text = .str t) :
    t = String.ofList text ∧ Text.int text = none ∧ py.float (String.ofList text) = none := by
  by_cases hunreserved : Unreserved text
  · rw [bareLiteral_of_unreserved hunreserved] at h
    cases hint : Text.int text with
    | some i =>
        rw [hint] at h
        cases h
    | none =>
        rw [hint] at h
        cases hfloat : py.float (String.ofList text) with
        | some x =>
            rw [hfloat] at h
            cases h
        | none =>
            rw [hfloat] at h
            cases h
            exact ⟨rfl, rfl, rfl⟩
  · rw [Unreserved, not_and_or, not_and_or, not_and_or, not_not, not_not, not_not,
      not_not] at hunreserved
    rcases hunreserved with rfl | rfl | rfl | rfl <;> cases h

theorem not_quotedText_of_head {c : Char} {rest : List Char} (hc : ¬IsQuote c) :
    ¬QuotedText (c :: rest) := by
  rintro ⟨quote, body, hquote, htext⟩
  obtain ⟨rfl, -⟩ := List.cons.inj htext
  exact hc hquote

theorem unreserved_toString (i : ℤ) : Unreserved (toString i).toList := by
  have hmem (word : List Char) (c : Char) (hc : c ∈ word) (hdigit : c.isDigit = false)
      (hminus : c ≠ '-') : (toString i).toList ≠ word := by
    rintro rfl
    rcases isDigit_or_minus hc with h | h
    · rw [hdigit] at h
      cases h
    · exact hminus h
  refine ⟨hmem _ 't' ?_ ?_ ?_, hmem _ 'f' ?_ ?_ ?_, hmem _ 'n' ?_ ?_ ?_, hmem _ 'n' ?_ ?_ ?_⟩ <;>
    decide

theorem not_quotedText_toString (i : ℤ) : ¬QuotedText (toString i).toList := by
  obtain ⟨c, rest, hchars, -⟩ := head_toString i
  rw [hchars]
  apply not_quotedText_of_head
  have hmem : c ∈ (toString i).toList := hchars ▸ List.mem_cons_self
  rintro (rfl | rfl) <;> rcases isDigit_or_minus hmem with h | h <;> exact absurd h (by decide)

end Words

/-- An operand that no number parser takes for a number is read as what it denotes. -/
theorem untilLiteral_text {v : Operand} {token : List Char} (hnumber : v.NoNumber py)
    (htoken : Text.strip token = v.text) : untilLiteral py token = v.denotes := by
  cases v with
  | quoted quote body isQuote free => exact untilLiteral_of_quoted isQuote htoken
  | word text bare =>
      have hunquoted : ¬QuotedText (Text.strip token) := by
        rw [htoken]
        exact bare.unquoted
      rw [untilLiteral_of_not_quoted hunquoted, htoken]
      change untilLiteral.bareLiteral py text = .str (String.ofList text)
      rw [bareLiteral_of_unreserved bare.unreserved, hnumber.1, hnumber.2]
      rfl
  | int i =>
      have hunquoted : ¬QuotedText (Text.strip token) := by
        rw [htoken]
        exact not_quotedText_toString i
      rw [untilLiteral_of_not_quoted hunquoted, htoken]
      change untilLiteral.bareLiteral py (toString i).toList = .int i
      rw [bareLiteral_of_unreserved (unreserved_toString i), int_toString]
      rfl
  | bool b =>
      have hunquoted : ¬QuotedText (Text.strip token) := by
        rw [htoken]
        cases b <;> exact not_quotedText_of_head (by unfold IsQuote; decide)
      rw [untilLiteral_of_not_quoted hunquoted, htoken]
      cases b <;> rfl
  | null =>
      have hunquoted : ¬QuotedText (Text.strip token) := by
        rw [htoken]
        exact not_quotedText_of_head (by unfold IsQuote; decide)
      rw [untilLiteral_of_not_quoted hunquoted, htoken]
      rfl
  | noneWord =>
      have hunquoted : ¬QuotedText (Text.strip token) := by
        rw [htoken]
        exact not_quotedText_of_head (by unfold IsQuote; decide)
      rw [untilLiteral_of_not_quoted hunquoted, htoken]
      rfl

theorem mem_of_mem_strip {s : List Char} {c : Char} (h : c ∈ Text.strip s) : c ∈ s := by
  have hsuffix := List.dropWhile_suffix Text.isSpace (l := s)
  apply hsuffix.subset
  rw [Text.strip, List.mem_reverse] at h
  exact List.mem_reverse.mp ((List.dropWhile_suffix Text.isSpace).subset h)

/-- A text that is read is made of the characters that were written. -/
theorem mem_of_untilLiteral_eq_str {token : List Char} {t : String} {c : Char}
    (h : untilLiteral py token = .str t) (hc : c ∈ t.toList) : c ∈ token := by
  apply mem_of_mem_strip
  by_cases hquoted : QuotedText (Text.strip token)
  · obtain ⟨quote, body, hquote, htoken⟩ := hquoted
    rw [untilLiteral_of_quoted hquote htoken] at h
    cases h
    rw [String.toList_ofList] at hc
    rw [htoken]
    simp [hc]
  · rw [untilLiteral_of_not_quoted hquoted] at h
    obtain ⟨rfl, -⟩ := bareLiteral_eq_str h
    rwa [String.toList_ofList] at hc

/-- Only the same text is the same as a text. -/
theorem same_str_iff {t : String} {v : Value} : same (.str t) v = true ↔ v = .str t := by
  cases v with
  | scalar s => cases s <;> simp [same, Value.isBool, Value.eq, Scalar.eq, Scalar.number?, eq_comm]
  | list items => simp [same, Value.eq]
  | dict entries => simp [same, Value.eq]

end Literals

section Lists

/-- Operands as they are listed between brackets. -/
def listText : List Operand → List Char
  | [] => []
  | v :: rest => v.text ++ rest.flatMap fun w => ", ".toList ++ w.text

theorem split_comma_append {a : List Char} (ha : ',' ∉ a) (s : List Char) :
    Text.split [','] (a ++ ',' :: s) = a :: Text.split [','] s := by
  rw [Text.split, Text.splitGo_append_of_notMem rfl a _ [] ha]
  simp [Text.splitGo, Text.split]

theorem split_comma_of_notMem {a : List Char} (ha : ',' ∉ a) : Text.split [','] a = [a] := by
  have h : Text.splitGo [','] 0 [] (a ++ []) = Text.splitGo [','] 0 (a.reverse ++ []) [] :=
    Text.splitGo_append_of_notMem rfl a [] [] ha
  simpa [Text.splitGo, Text.split] using h

/-- What is split at commas has none left. -/
theorem notMem_of_mem_splitGo {s part token : List Char} (hpart : ',' ∉ part)
    (h : token ∈ Text.splitGo [','] 0 part s) : ',' ∉ token := by
  induction s generalizing part with
  | nil =>
      rw [Text.splitGo, List.mem_singleton] at h
      rw [h, List.mem_reverse]
      exact hpart
  | cons c rest ih =>
      rw [Text.splitGo] at h
      split at h
      · rcases List.mem_cons.mp h with rfl | hrest
        · rw [List.mem_reverse]
          exact hpart
        · exact ih (by simp) hrest
      next hcomma =>
        have hc : ',' ≠ c := by
          rintro rfl
          exact hcomma rfl
        apply ih _ h
        rw [List.mem_cons, not_or]
        exact ⟨hc, hpart⟩

/-- What is not a comma is in one of the parts. -/
theorem exists_mem_splitGo {s part : List Char} {c : Char} (hc : c ∈ part ∨ c ∈ s)
    (hcomma : c ≠ ',') : ∃ token ∈ Text.splitGo [','] 0 part s, c ∈ token := by
  induction s generalizing part with
  | nil =>
      have hpart : c ∈ part := hc.resolve_right List.not_mem_nil
      exact ⟨part.reverse, List.mem_singleton_self _, List.mem_reverse.mpr hpart⟩
  | cons d rest ih =>
      rw [Text.splitGo]
      split
      next hd =>
        rcases hc with hpart | hrest
        · exact ⟨part.reverse, List.mem_cons_self, List.mem_reverse.mpr hpart⟩
        · have hne : c ≠ d := by
            rintro rfl
            rw [List.isPrefixOf_cons_cons, Bool.and_eq_true, beq_iff_eq] at hd
            exact hcomma hd.1.symm
          have hmem : c ∈ rest := (List.mem_cons.mp hrest).resolve_left hne
          obtain ⟨token, htoken, hin⟩ := ih (.inr hmem)
          exact ⟨token, List.mem_cons_of_mem _ htoken, hin⟩
      · apply ih
        rw [List.mem_cons] at hc ⊢
        tauto

theorem strip_ne_nil {s : List Char} {c : Char} (hc : c ∈ s) (hspace : Text.isSpace c = false) :
    Text.strip s ≠ [] := by
  intro hnil
  have hall : ∀ d ∈ s, Text.isSpace d = true := by
    have hrdrop : (s.dropWhile Text.isSpace).reverse.dropWhile Text.isSpace = [] :=
      List.reverse_eq_nil_iff.mp hnil
    rw [List.dropWhile_eq_nil_iff] at hrdrop
    have hfront : s.dropWhile Text.isSpace = [] := by
      by_contra hne
      have hhead := not_isSpace_head?_dropWhile s _ (List.head?_eq_some_head hne)
      have hmem := hrdrop _ (List.mem_reverse.mpr (List.head_mem hne))
      rw [hhead] at hmem
      cases hmem
    exact List.dropWhile_eq_nil_iff.mp hfront
  have htrue := hall c hc
  rw [hspace] at htrue
  cases htrue

theorem untilTokens_listText_ne_nil {operands : List Operand} (hne : operands ≠ []) :
    untilTokens (listText operands) ≠ [] := by
  cases operands with
  | nil => exact absurd rfl hne
  | cons v rest =>
      obtain ⟨c, hc, hspace, hcomma⟩ := v.exists_mem_text
      have hmem : c ∈ listText (v :: rest) := List.mem_append_left _ hc
      have hfound : ∃ token ∈ Text.split [','] (listText (v :: rest)), c ∈ token :=
        exists_mem_splitGo (.inr hmem) hcomma
      obtain ⟨token, htoken, hin⟩ := hfound
      apply List.ne_nil_of_mem
      apply List.mem_filter.mpr ⟨htoken, ?_⟩
      rw [List.isEmpty_eq_false_iff.mpr (strip_ne_nil hin hspace)]
      rfl

theorem notMem_of_mem_untilTokens {list token : List Char} (h : token ∈ untilTokens list) :
    ',' ∉ token :=
  notMem_of_mem_splitGo List.not_mem_nil (List.mem_of_mem_filter h)

theorem split_listed {a : List Char} (ha : ',' ∉ a) {rest : List Operand}
    (h : ∀ w ∈ rest, ',' ∉ w.text) :
    Text.split [','] (a ++ rest.flatMap fun w => ", ".toList ++ w.text) =
      a :: rest.map fun w => ' ' :: w.text := by
  induction rest generalizing a with
  | nil =>
      rw [List.flatMap_nil, List.append_nil]
      exact split_comma_of_notMem ha
  | cons w rest ih =>
      have hw : ',' ∉ ' ' :: w.text := by
        rw [List.mem_cons, not_or]
        exact ⟨by decide, h w List.mem_cons_self⟩
      have htail := ih hw fun u hu => h u (List.mem_cons_of_mem w hu)
      rw [List.map_cons, ← htail, ← split_comma_append ha]
      rfl

theorem strip_space (s : List Char) : Text.strip (' ' :: s) = Text.strip s := by
  have hspace : Text.isSpace ' ' = true := by decide
  rw [Text.strip, Text.strip, List.dropWhile_cons_of_pos hspace]

/-- Operands without commas are what the list is split into. -/
theorem untilTokens_listText {v : Operand} {rest : List Operand}
    (h : ∀ w ∈ v :: rest, ',' ∉ w.text) :
    untilTokens (listText (v :: rest)) = v.text :: rest.map fun w => ' ' :: w.text := by
  have hkept (w : Operand) : (!(Text.strip w.text).isEmpty) = true := by
    rw [w.strip_text, List.isEmpty_eq_false_iff.mpr w.text_ne_nil]
    rfl
  rw [untilTokens, listText, split_listed (h v List.mem_cons_self)
    fun w hw => h w (List.mem_cons_of_mem v hw)]
  rw [List.filter_eq_self]
  intro token htoken
  rcases List.mem_cons.mp htoken with rfl | hrest
  · exact hkept v
  · obtain ⟨w, -, rfl⟩ := List.mem_map.mp hrest
    rw [strip_space]
    exact hkept w

/-- Looking through the tokens of a list is looking through what its operands denote. -/
theorem any_untilTokens {py : Interpreter} {operands : List Operand} (hne : operands ≠ [])
    (hcomma : ∀ v ∈ operands, ',' ∉ v.text) (hnumber : ∀ v ∈ operands, v.NoNumber py)
    (actual : Value) :
    ((untilTokens (listText operands)).any fun token => same actual (untilLiteral py token)) =
      operands.any fun v => same actual v.denotes := by
  cases operands with
  | nil => exact absurd rfl hne
  | cons v rest =>
      have hfirst := untilLiteral_text (hnumber v List.mem_cons_self) v.strip_text
      have hrest : ∀ w ∈ rest, untilLiteral py (' ' :: w.text) = w.denotes := by
        intro w hw
        apply untilLiteral_text (hnumber w (List.mem_cons_of_mem v hw))
        rw [strip_space]
        exact w.strip_text
      rw [untilTokens_listText hcomma, List.any_cons, List.any_cons, hfirst, List.any_map]
      congr 1
      rw [Bool.eq_iff_iff, List.any_eq_true, List.any_eq_true]
      apply exists_congr
      intro w
      apply and_congr_right
      intro hw
      rw [Function.comp_apply, hrest w hw]

end Lists

end A2aItk.Acts
