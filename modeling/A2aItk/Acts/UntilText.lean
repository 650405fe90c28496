import A2aItk.Acts.UntilOperands
import A2aItk.Acts.PathInstances

/-!
# Polling conditions as they are written

`path == v`, `path != v` and `path in [v, …, w]` say what they seem to say, for the
operands that survive the pattern, the split at commas and the number parsers.
-/

namespace A2aItk.Acts

open Python

section Reading

/-- A path that can read a value: it parses, without a wildcard. -/
def CanRead (path : String) : Prop :=
  ∃ segments, parsePath path = .ok segments ∧ .wildcard ∉ segments

/-- A response that has a value at the segments. -/
def placed (v : Value) : List Segment → Value
  | [] => v
  | .key name :: rest => .dict [(.str name, placed v rest)]
  | .index position :: rest =>
      if position < 0 then .list (placed v rest :: List.replicate (position.natAbs - 1) .null)
      else .list (List.replicate position.natAbs .null ++ [placed v rest])
  | .wildcard :: rest => placed v rest

theorem follow_placed (v : Value) {segment : Segment} (rest : List Segment)
    (h : segment ≠ .wildcard) :
    segment.follow (placed v (segment :: rest)) = some (placed v rest) := by
  cases segment with
  | wildcard => exact absurd rfl h
  | key name =>
      simp [placed, Segment.follow, Value.get?, Value.lookup, Scalar.eq, Scalar.number?]
  | index position =>
      by_cases hneg : position < 0
      · have hlength : position + ((placed v rest ::
            List.replicate (position.natAbs - 1) Value.null).length : ℕ) = 0 := by
          simp only [List.length_cons, List.length_replicate]
          omega
        simp only [placed, if_pos hneg, Segment.follow, Value.array?, Option.bind_eq_bind,
          Option.bind_some, hlength]
        rfl
      · have hnat : position.toNat = position.natAbs := by omega
        simp only [placed, if_neg hneg, Segment.follow, Value.array?, Option.bind_eq_bind,
          Option.bind_some, hnat]
        simp

theorem readSegments_placed (v : Value) {segments : List Segment} (h : .wildcard ∉ segments) :
    readSegments (placed v segments) segments = .ok (some v) := by
  induction segments with
  | nil => rfl
  | cons segment rest ih =>
      rw [List.mem_cons, not_or] at h
      exact (readSegments_cons_eq_some _ _ _ _).mpr
        ⟨placed v rest, follow_placed v rest (Ne.symm h.1), ih h.2⟩

theorem CanRead.exists_response {path : String} (h : CanRead path) (v : Value) :
    ∃ response, readPath response path = .ok (some v) := by
  obtain ⟨segments, hparse, hwild⟩ := h
  refine ⟨placed v segments, ?_⟩
  rw [readPath, hparse]
  exact readSegments_placed v hwild

theorem wildcard_notMem_of_readSegments {response v : Value} {segments : List Segment}
    (h : readSegments response segments = .ok (some v)) : .wildcard ∉ segments := by
  induction segments generalizing response with
  | nil => simp
  | cons segment rest ih =>
      obtain ⟨inner, hfollow, hrest⟩ := (readSegments_cons_eq_some _ _ _ _).mp h
      rw [List.mem_cons, not_or]
      refine ⟨?_, ih hrest⟩
      rintro rfl
      cases hfollow

theorem canRead_of_readPath {path : String} {response v : Value}
    (h : readPath response path = .ok (some v)) : CanRead path := by
  obtain ⟨segments, hparse, hread⟩ := bind_eq_ok_iff.mp h
  exact ⟨segments, hparse, wildcard_notMem_of_readSegments hread⟩

/-- The exception of a path. -/
def IsPathError (e : Exception) : Prop := ∃ message, e = .pathError message

theorem raisesOnly_parseSegments (path : String) (total skip : ℕ) (gap s : List Char) :
    RaisesOnly IsPathError (parseSegments path total skip gap s) := by
  fun_induction parseSegments path total skip gap s with
  | case1 skip gap c rest ih => exact ih
  | case2 => exact .ok _ []
  | case3 gap hempty => exact .ok _ []
  | case4 gap hempty => exact .error ⟨_, rfl⟩
  | case5 gap c rest hnext ih => exact ih
  | case6 gap c rest segment after hnext hgap ih =>
      apply ih.bind
      intro others _
      exact .ok _ (segment :: others)
  | case7 => exact .error ⟨_, rfl⟩

/-- Reading a path raises a `PathError` if it raises. -/
theorem raisesOnly_readPath (response : Value) (path : String) :
    RaisesOnly IsPathError (readPath response path) := by
  apply (raisesOnly_parseSegments path _ 0 [] _).bind
  intro segments _
  clear * -
  induction segments generalizing response with
  | nil => exact .ok _ (some response)
  | cons segment rest ih =>
      have hstep : RaisesOnly IsPathError (segment.step response) := by
        cases segment with
        | wildcard => exact .error ⟨_, rfl⟩
        | key name => exact .ok _ _
        | index position => exact .ok _ _
      apply hstep.bind
      intro inner _
      cases inner with
      | none => exact .ok _ none
      | some inner => exact ih inner

end Reading

section Parsing

variable {py : Interpreter} {path : String}

/-- `path == v` -/
def equalText (path : String) (v : Operand) : String :=
  path ++ " == " ++ String.ofList v.text

/-- `path != v` -/
def unequalText (path : String) (v : Operand) : String :=
  path ++ " != " ++ String.ofList v.text

/-- `path in [v, …, w]` -/
def memberText (path : String) (operands : List Operand) : String :=
  path ++ " in [" ++ String.ofList (listText operands) ++ "]"

/-- A path that the pattern can take as a whole. -/
def IsUntilPath (path : String) : Prop := ∀ c ∈ path.toList, isUntilPathChar c = true

theorem not_isSpace_of_isUntilPathChar {c : Char} (h : isUntilPathChar c = true) :
    Text.isSpace c = false := by
  rw [isUntilPathChar, Bool.and_eq_true, Bool.and_eq_true, Bool.not_eq_true'] at h
  exact h.1.1

/-- The pattern looks for a path at the start, and for a test after a blank. -/
theorem parse_eq_untilSplit (hpath : IsUntilPath path) (hne : path ≠ "") {expression : String}
    {after : List Char} (h : expression.toList = path.toList ++ ' ' :: after) :
    parseUntil expression = untilSplit (path.toList ++ ' ' :: after) path.toList.length := by
  have hhead : ∀ c ∈ (path.toList ++ ' ' :: after).head?, Text.isSpace c = false := by
    intro c hc
    rw [List.head?_append_of_ne_nil _ (String.toList_eq_nil_iff.not.mpr hne)] at hc
    exact not_isSpace_of_isUntilPathChar (hpath c (List.mem_of_mem_head? hc))
  have htake : (path.toList ++ ' ' :: after).takeWhile isUntilPathChar = path.toList := by
    apply takeWhile_append_of_head hpath
    intro c hc
    obtain rfl : ' ' = c := Option.some.inj hc
    decide
  rw [parseUntil, h, Text.dropWhile_eq_self hhead, htake]

/-- A whole path is preferred over its beginnings. -/
theorem parseUntil_of_test (hpath : IsUntilPath path) (hne : path ≠ "") {expression : String}
    {after : List Char} {test : UntilTest} (h : expression.toList = path.toList ++ ' ' :: after)
    (htest : untilTest? (' ' :: after) = some test) :
    parseUntil expression = some (path, test) := by
  rw [parse_eq_untilSplit hpath hne h]
  cases hlength : path.toList.length with
  | zero => exact absurd (List.length_eq_zero_iff.mp hlength) (String.toList_eq_nil_iff.not.mpr hne)
  | succ n =>
      rw [untilSplit, ← hlength, List.drop_left, htest, List.take_left]
      simp only [String.ofList_toList]

theorem untilTest_equal (rest : List Char) :
    untilTest? (' ' :: '=' :: '=' :: rest) = UntilTest.equal <$> untilOperand rest := rfl

theorem untilTest_unequal (rest : List Char) :
    untilTest? (' ' :: '!' :: '=' :: rest) = UntilTest.unequal <$> untilOperand rest := rfl

theorem untilTest_member (rest : List Char) :
    untilTest? (' ' :: 'i' :: 'n' :: rest) = UntilTest.member <$> untilList rest := rfl

theorem untilOperand_text {v : Operand} (h : '\n' ∉ v.text) :
    untilOperand (' ' :: v.text) = some v.text := by
  rw [untilOperand, strip_space, v.strip_text]
  cases htext : v.text with
  | nil => exact absurd htext v.text_ne_nil
  | cons c rest =>
      rw [htext] at h
      exact if_neg h

theorem untilList_brackets {list : List Char} (h : '\n' ∉ list) :
    untilList (' ' :: '[' :: (list ++ [']'])) = some list := by
  have hlast : rstrip (list ++ [']']) = list ++ [']'] := by
    rw [rstrip, List.reverse_concat, List.dropWhile_cons_of_neg (by decide),
      ← List.reverse_concat, List.reverse_reverse]
  have hdrop : (' ' :: '[' :: (list ++ [']'])).dropWhile Text.isSpace =
      '[' :: (list ++ [']']) := rfl
  have hreverse : (rstrip (list ++ [']'])).reverse = ']' :: list.reverse := by
    rw [hlast, List.reverse_concat]
  have hline : '\n' ∉ list.reverse := by rwa [List.mem_reverse]
  simp only [untilList, hdrop, hreverse, if_neg hline, List.reverse_reverse]

theorem toList_equalText (path : String) (v : Operand) :
    (equalText path v).toList = path.toList ++ ' ' :: '=' :: '=' :: ' ' :: v.text := by
  simp [equalText]

theorem toList_unequalText (path : String) (v : Operand) :
    (unequalText path v).toList = path.toList ++ ' ' :: '!' :: '=' :: ' ' :: v.text := by
  simp [unequalText]

theorem toList_memberText (path : String) (operands : List Operand) :
    (memberText path operands).toList =
      path.toList ++ ' ' :: 'i' :: 'n' :: ' ' :: '[' :: (listText operands ++ [']']) := by
  simp [memberText]

theorem mem_listText {operands : List Operand} {c : Char} (h : c ∈ listText operands) :
    c = ',' ∨ c = ' ' ∨ ∃ v ∈ operands, c ∈ v.text := by
  cases operands with
  | nil => exact absurd h List.not_mem_nil
  | cons v rest =>
      rcases List.mem_append.mp h with hfirst | hrest
      · exact .inr (.inr ⟨v, List.mem_cons_self, hfirst⟩)
      · obtain ⟨w, hw, hmem⟩ := List.mem_flatMap.mp hrest
        rcases List.mem_append.mp hmem with hsep | htext
        · have hpair : c = ',' ∨ c = ' ' := by simpa using hsep
          exact hpair.imp_right .inl
        · exact .inr (.inr ⟨w, List.mem_cons_of_mem v hw, htext⟩)

theorem states_equalText {v : Operand} (hpath : IsUntilPath path) (hne : path ≠ "")
    (h : '\n' ∉ v.text) : States (.str (equalText path v)) path (.equal v.text) := by
  refine ⟨_, rfl, parseUntil_of_test hpath hne (toList_equalText path v) ?_⟩
  rw [untilTest_equal, untilOperand_text h]
  rfl

theorem states_unequalText {v : Operand} (hpath : IsUntilPath path) (hne : path ≠ "")
    (h : '\n' ∉ v.text) : States (.str (unequalText path v)) path (.unequal v.text) := by
  refine ⟨_, rfl, parseUntil_of_test hpath hne (toList_unequalText path v) ?_⟩
  rw [untilTest_unequal, untilOperand_text h]
  rfl

theorem states_memberText {operands : List Operand} (hpath : IsUntilPath path) (hne : path ≠ "")
    (h : ∀ v ∈ operands, '\n' ∉ v.text) :
    States (.str (memberText path operands)) path (.member (listText operands)) := by
  have hlist : '\n' ∉ listText operands := by
    intro hmem
    rcases mem_listText hmem with hcomma | hblank | ⟨v, hv, htext⟩
    · exact absurd hcomma (by decide)
    · exact absurd hblank (by decide)
    · exact h v hv htext
  refine ⟨_, rfl, parseUntil_of_test hpath hne (toList_memberText path operands) ?_⟩
  rw [untilTest_member, untilList_brackets hlist]
  rfl

end Parsing

section Broken

/-- A text that ends in a quoted text with a line break in it. -/
def EndsBroken (s : List Char) : Prop :=
  ∃ front quote body, IsQuote quote ∧ '\n' ∈ body ∧ s = front ++ quote :: (body ++ [quote])

theorem EndsBroken.of_cons {c : Char} {s : List Char} (h : EndsBroken (c :: s))
    (hc : ¬IsQuote c) : EndsBroken s := by
  obtain ⟨front, quote, body, hquote, hline, heq⟩ := h
  cases front with
  | nil =>
      obtain ⟨rfl, -⟩ := List.cons.inj heq
      exact absurd hquote hc
  | cons d front =>
      obtain ⟨-, hrest⟩ := List.cons.inj heq
      exact ⟨front, quote, body, hquote, hline, hrest⟩

theorem EndsBroken.dropWhile {s : List Char} (h : EndsBroken s) :
    EndsBroken (s.dropWhile Text.isSpace) := by
  induction s with
  | nil => exact h
  | cons c rest ih =>
      by_cases hspace : Text.isSpace c = true
      · rw [List.dropWhile_cons_of_pos hspace]
        apply ih
        apply h.of_cons
        intro hquote
        rw [not_isSpace_of_isQuote hquote] at hspace
        cases hspace
      · rwa [List.dropWhile_cons_of_neg hspace]

theorem EndsBroken.getLast? {s : List Char} (h : EndsBroken s) :
    ∃ quote, IsQuote quote ∧ s.getLast? = some quote := by
  obtain ⟨front, quote, body, hquote, -, rfl⟩ := h
  refine ⟨quote, hquote, ?_⟩
  rw [List.getLast?_append, getLast?_quoted]
  rfl

theorem EndsBroken.mem {s : List Char} (h : EndsBroken s) : '\n' ∈ s := by
  obtain ⟨front, quote, body, -, hline, rfl⟩ := h
  simp [hline]

/-- No operand has a line break. -/
theorem untilOperand_of_endsBroken {s : List Char} (h : EndsBroken s) : untilOperand s = none := by
  obtain ⟨quote, hquote, hlast⟩ := h.getLast?
  have hstrip : Text.strip s = s.dropWhile Text.isSpace := by
    apply strip_eq_dropWhile
    rw [hlast]
    rintro c ⟨⟩
    exact not_isSpace_of_isQuote hquote
  have hmem : '\n' ∈ Text.strip s := hstrip ▸ h.dropWhile.mem
  unfold untilOperand
  split
  next hnil =>
    rw [hnil] at hmem
    exact absurd hmem List.not_mem_nil
  next => exact if_pos hmem

/-- No list ends in a quote. -/
theorem untilList_of_endsBroken {s : List Char} (h : EndsBroken s) : untilList s = none := by
  have hdrop := h.dropWhile
  unfold untilList
  split
  next rest heq =>
    rw [heq] at hdrop
    have hrest := hdrop.of_cons (by unfold IsQuote; decide)
    obtain ⟨quote, hquote, hlast⟩ := hrest.getLast?
    have hhead : (rstrip rest).reverse.head? = some quote := by
      rw [← List.head?_reverse] at hlast
      rw [rstrip, List.reverse_reverse, Text.dropWhile_eq_self, hlast]
      rw [hlast]
      rintro c ⟨⟩
      exact not_isSpace_of_isQuote hquote
    split
    next listed hbracket =>
      rw [hbracket] at hhead
      obtain rfl : ']' = quote := Option.some.inj hhead
      exact absurd hquote (by unfold IsQuote; decide)
    · rfl
  · rfl

theorem untilTest_of_endsBroken {s : List Char} (h : EndsBroken s) : untilTest? s = none := by
  have hdrop := h.dropWhile
  have hplain {c : Char} (hc : c = '=' ∨ c = '!' ∨ c = 'i' ∨ c = 'n') : ¬IsQuote c := by
    unfold IsQuote
    rcases hc with rfl | rfl | rfl | rfl <;> decide
  unfold untilTest?
  split
  next rest heq =>
    rw [heq] at hdrop
    have hrest := (hdrop.of_cons (hplain (by simp))).of_cons (hplain (by simp))
    rw [untilOperand_of_endsBroken hrest]
    rfl
  next rest heq =>
    rw [heq] at hdrop
    have hrest := (hdrop.of_cons (hplain (by simp))).of_cons (hplain (by simp))
    rw [untilOperand_of_endsBroken hrest]
    rfl
  next rest heq =>
    rw [heq] at hdrop
    have hrest := (hdrop.of_cons (hplain (by simp))).of_cons (hplain (by simp))
    rw [untilList_of_endsBroken hrest]
    rfl
  · rfl

theorem untilSplit_of_endsBroken {s : List Char} {n : ℕ}
    (h : ∀ k ≤ n, EndsBroken (s.drop k)) : untilSplit s n = none := by
  induction n with
  | zero => rfl
  | succ n ih =>
      rw [untilSplit, untilTest_of_endsBroken (h (n + 1) le_rfl)]
      exact ih fun k hk => h k (Nat.le_succ_of_le hk)

end Broken

section ReadBack

variable (py : Interpreter) (path : String) (operands : List Operand)

/-- The expressions that can be written with some operands say what they seem to say of a
response: equality, inequality and membership of the value at the path. -/
structure ReadsBack (response : Value) : Prop where
  equal : ∀ v ∈ operands, evaluateUntil py (.str (equalText path v)) response =
    (fun actual => sameAs actual v.denotes) <$> readPath response path
  unequal : ∀ v ∈ operands, evaluateUntil py (.str (unequalText path v)) response =
    (fun actual => !sameAs actual v.denotes) <$> readPath response path
  member : evaluateUntil py (.str (memberText path operands)) response =
    (fun actual => operands.any fun v => sameAs actual v.denotes) <$> readPath response path

/-- What the pattern, the split at commas and the number parsers leave alone. -/
structure Legible : Prop where
  nonempty : path ≠ ""
  line : ∀ v ∈ operands, '\n' ∉ v.text
  comma : CanRead path → ∀ v ∈ operands, ',' ∉ v.text
  number : CanRead path → ∀ v ∈ operands, v.NoNumber py

variable {py path operands} {response : Value}

/-- Two answers agree that agree where nothing is read and on every value that is. -/
theorem map_readPath_congr {f g : Option Value → Bool} (hnone : f none = g none)
    (hsome : CanRead path → ∀ v, f (some v) = g (some v)) :
    f <$> readPath response path = g <$> readPath response path := by
  cases hread : readPath response path with
  | error e => rfl
  | ok actual =>
      cases actual with
      | none => exact congrArg Except.ok hnone
      | some v => exact congrArg Except.ok (hsome (canRead_of_readPath hread) v)

theorem readsBack_of_legible (hpath : IsUntilPath path) (hoperands : operands ≠ [])
    (h : Legible py path operands) : ReadsBack py path operands response := by
  constructor
  · intro v hv
    have hstates := states_equalText hpath h.nonempty (h.line v hv)
    rw [evaluateUntil_of_states hstates trivial]
    apply map_readPath_congr
    · rfl
    intro hread actual
    exact congrArg (same actual) (untilLiteral_text (h.number hread v hv) v.strip_text)
  · intro v hv
    have hstates := states_unequalText hpath h.nonempty (h.line v hv)
    rw [evaluateUntil_of_states hstates trivial]
    apply map_readPath_congr
    · rfl
    intro hread actual
    have hliteral := untilLiteral_text (h.number hread v hv) v.strip_text
    exact congrArg (fun w => !same actual w) hliteral
  · have hstates := states_memberText hpath h.nonempty h.line
    rw [evaluateUntil_of_states hstates (untilTokens_listText_ne_nil hoperands)]
    apply map_readPath_congr
    · simp [UntilTest.answer, UntilTest.isUnequal, sameAs]
    · intro hread actual
      exact any_untilTokens hoperands (h.comma hread) (h.number hread) actual

theorem endsBroken_of_mem {v : Operand} (h : '\n' ∈ v.text) : EndsBroken v.text := by
  by_cases hquoted : QuotedText v.text
  · obtain ⟨quote, body, hquote, htext⟩ := hquoted
    refine ⟨[], quote, body, hquote, ?_, htext⟩
    have hne : '\n' ≠ quote := by
      rcases hquote with rfl | rfl <;> decide
    rw [htext, List.mem_cons, List.mem_append, List.mem_singleton] at h
    exact (h.resolve_left hne).resolve_right hne
  · have hspace := Operand.solid_of_not_quoted hquoted _ h
    exact absurd hspace (by decide)

/-- An operand with a line break makes the expression unreadable. -/
theorem parseUntil_of_line {v : Operand} (hpath : IsUntilPath path) (hne : path ≠ "")
    (h : '\n' ∈ v.text) : parseUntil (equalText path v) = none := by
  rw [parse_eq_untilSplit hpath hne (toList_equalText path v)]
  apply untilSplit_of_endsBroken
  intro k hk
  obtain ⟨front, quote, body, hquote, hline, htext⟩ := endsBroken_of_mem h
  rw [List.drop_append_of_le_length hk, htext]
  exact ⟨path.toList.drop k ++ ' ' :: '=' :: '=' :: ' ' :: front, quote, body, hquote, hline,
    by simp⟩

/-- A missing path makes the expression unreadable. -/
theorem parseUntil_of_empty (v : Operand) : parseUntil (equalText "" v) = none := by
  rw [parseUntil, toList_equalText]
  rfl

/-- An expression that cannot be parsed is not evaluated as the path is read. -/
theorem evaluateUntil_ne_map {expression : String} (h : parseUntil expression = none)
    (f : Option Value → Bool) :
    evaluateUntil py (.str expression) response ≠ f <$> readPath response path := by
  have heval : ∃ message, evaluateUntil py (.str expression) response =
      .error (.untilError message) := by
    unfold evaluateUntil
    simp only [Value.text?, h]
    exact ⟨_, rfl⟩
  obtain ⟨message, heval⟩ := heval
  rw [heval]
  intro hraised
  obtain ⟨other, hother⟩ := (raisesOnly_readPath response path).map _ hraised.symm
  cases hother

theorem denotes_of_comma {v : Operand} (h : ',' ∈ v.text) :
    ∃ t : String, v.denotes = .str t ∧ ',' ∈ t.toList := by
  cases v with
  | quoted quote body isQuote free =>
      have hne : ',' ≠ quote := by
        rcases isQuote with rfl | rfl <;> decide
      refine ⟨String.ofList body, rfl, ?_⟩
      rw [Operand.text, List.mem_cons, List.mem_append, List.mem_singleton] at h
      rw [String.toList_ofList]
      exact (h.resolve_left hne).resolve_right hne
  | word text bare => exact absurd h bare.commaless
  | int i => exact absurd h (Operand.commaless_of_not_quoted (not_quotedText_toString i))
  | bool b => cases b <;> exact absurd h (by decide)
  | null => exact absurd h (by decide)
  | noneWord => exact absurd h (by decide)

/-- A listed text with a comma is not found, whatever else is listed. -/
theorem comma_of_readsBack (hpath : IsUntilPath path) (hne : path ≠ "")
    (hline : ∀ v ∈ operands, '\n' ∉ v.text) (h : ReadsBack py path operands response)
    {v : Operand} (hv : v ∈ operands)
    (hresponse : readPath response path = .ok (some v.denotes)) : ',' ∉ v.text := by
  intro hcomma
  obtain ⟨t, hdenotes, hmem⟩ := denotes_of_comma hcomma
  rw [hdenotes] at hresponse
  have hmember := h.member
  rw [evaluateUntil_of_states (states_memberText hpath hne hline)
    (untilTokens_listText_ne_nil (List.ne_nil_of_mem hv)), hresponse] at hmember
  have hfound : (untilTokens (listText operands)).any
      (fun token => same (.str t) (untilLiteral py token)) =
        operands.any fun v => same (.str t) v.denotes := Except.ok.inj hmember
  have hexpected : operands.any (fun v => same (.str t) v.denotes) = true :=
    List.any_eq_true.mpr ⟨v, hv, same_str_iff.mpr hdenotes⟩
  obtain ⟨token, htoken, hsame⟩ := List.any_eq_true.mp (hfound.trans hexpected)
  exact notMem_of_mem_untilTokens htoken
    (mem_of_untilLiteral_eq_str (same_str_iff.mp hsame) hmem)

/-- A word that is read as a number is not found where it stands. -/
theorem noNumber_of_readsBack (hpath : IsUntilPath path) (hne : path ≠ "")
    (hline : ∀ v ∈ operands, '\n' ∉ v.text) (h : ReadsBack py path operands response)
    {v : Operand} (hv : v ∈ operands)
    (hresponse : readPath response path = .ok (some v.denotes)) : v.NoNumber py := by
  cases v with
  | word text bare =>
      have hequal := h.equal _ hv
      rw [evaluateUntil_of_states (states_equalText hpath hne (hline _ hv)) trivial,
        hresponse] at hequal
      have hsame : same (.str (String.ofList text)) (untilLiteral py text) =
          same (.str (String.ofList text)) (.str (String.ofList text)) := Except.ok.inj hequal
      have hself : same (.str (String.ofList text)) (.str (String.ofList text)) = true :=
        same_str_iff.mpr rfl
      have hliteral := same_str_iff.mp (hsame.trans hself)
      have hstrip : Text.strip text = text := (Operand.word text bare).strip_text
      rw [untilLiteral_of_not_quoted (hstrip.symm ▸ bare.unquoted), hstrip] at hliteral
      exact (bareLiteral_eq_str hliteral).2
  | quoted quote body isQuote free => trivial
  | int i => trivial
  | bool b => trivial
  | null => trivial
  | noneWord => trivial

/-- The expressions written with some operands read back in every response exactly when the
operands are legible. -/
theorem reads_back_iff (hpath : IsUntilPath path) (hoperands : operands ≠ []) :
    (∀ response, ReadsBack py path operands response) ↔ Legible py path operands := by
  constructor
  · intro h
    obtain ⟨v, hv⟩ := List.exists_mem_of_ne_nil operands hoperands
    have hne : path ≠ "" := by
      rintro rfl
      exact evaluateUntil_ne_map (parseUntil_of_empty v) _ ((h .null).equal v hv)
    have hline : ∀ w ∈ operands, '\n' ∉ w.text := by
      intro w hw hmem
      exact evaluateUntil_ne_map (parseUntil_of_line hpath hne hmem) _ ((h .null).equal w hw)
    refine ⟨hne, hline, ?_, ?_⟩
    · intro hread w hw
      obtain ⟨response, hresponse⟩ := hread.exists_response w.denotes
      exact comma_of_readsBack hpath hne hline (h response) hw hresponse
    · intro hread w hw
      obtain ⟨response, hresponse⟩ := hread.exists_response w.denotes
      exact noNumber_of_readsBack hpath hne hline (h response) hw hresponse
  · intro h response
    exact readsBack_of_legible hpath hoperands h

end ReadBack

section Corpus

theorem not_decimalText_of_head {c : Char} {rest : List Char}
    (hc : c.isDigit = false ∧ c ≠ '+' ∧ c ≠ '-') : ¬DecimalText (c :: rest) := by
  rintro ⟨sign, whole, fraction, htext, hsign, ⟨hne, hdigits⟩, -⟩
  obtain ⟨hdigit, hplus, hminus⟩ := hc
  rcases hsign with rfl | rfl | rfl
  · cases whole with
    | nil => exact hne rfl
    | cons d digits =>
        obtain ⟨rfl, -⟩ := List.cons.inj htext
        rw [hdigits c List.mem_cons_self] at hdigit
        cases hdigit
  · exact hplus (List.cons.inj htext).1
  · exact hminus (List.cons.inj htext).1

/-- `TASK_STATE_COMPLETED`, unquoted. -/
def completedWord : Operand :=
  .word "TASK_STATE_COMPLETED".toList
    { nonempty := by decide
      solid := not_isSpace_of_all (by decide)
      commaless := by decide
      unquoted := not_quotedText_of_head (by unfold IsQuote; decide)
      unreserved := by unfold Unreserved; decide
      notDecimal := not_decimalText_of_head (by decide) }

/-- A quoted text with a blank in it. -/
def quotedFailure : Operand := .quoted '\'' "it failed".toList (.inl rfl) (by decide)

theorem reads_back_completed :
    ReadsBack .plain "status.state" [completedWord, quotedFailure]
      (.object [("status", .object [("state", .str "TASK_STATE_COMPLETED")])]) := by
  apply (reads_back_iff (List.all_eq_true.mp (by decide)) (by simp)).mpr
  constructor
  · decide
  · simp [completedWord, quotedFailure, Operand.text]
  · simp [completedWord, quotedFailure, Operand.text]
  · intro _ v hv
    rcases List.mem_pair.mp hv with rfl | rfl
    · exact ⟨rfl, rfl⟩
    · trivial

/-- A quoted text with a comma in it. -/
def quotedComma : Operand := .quoted '\'' "a,b".toList (.inl rfl) (by decide)

/-- `status.note in ['a,b']` is false of a note that reads `a,b`. -/
theorem quoted_comma_is_split :
    ¬ReadsBack .plain "status.note" [quotedComma]
      (.object [("status", .object [("note", .str "a,b")])]) := by
  intro h
  have hpath : IsUntilPath "status.note" := List.all_eq_true.mp (by decide)
  have hline : ∀ v ∈ [quotedComma], '\n' ∉ v.text := by
    rintro v hv
    rw [List.mem_singleton.mp hv]
    decide
  have hcomma := comma_of_readsBack hpath (by decide) hline h (List.mem_singleton_self _) rfl
  exact hcomma (by decide)

end Corpus

end A2aItk.Acts
