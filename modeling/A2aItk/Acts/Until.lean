import A2aItk.Acts.Operators

/-!
# Polling conditions

`path == value`, `path != value` and `path in [a, b]` over the latest response.

## Implementation notes

The pattern backtracks in one place that matters: a path may give up the letters of
an `in` at its end. Everything else about a match is forced, so it is read off from
the text directly.
-/

namespace A2aItk.Acts

open Python

/-- What an expression asks of the value at its path. -/
inductive UntilTest
  | equal (token : List Char)
  | unequal (token : List Char)
  | member (list : List Char)
  deriving DecidableEq

section Grammar

/-- `[^\s=!]`. -/
def isUntilPathChar (c : Char) : Bool := !Text.isSpace c && c ≠ '=' && c ≠ '!'

def rstrip (s : List Char) : List Char := (s.reverse.dropWhile Text.isSpace).reverse

/-- `\s*(.+?)\s*$`. Where only blanks are left, the operand is one of them. -/
def untilOperand (s : List Char) : Option (List Char) :=
  match Text.strip s with
  | [] => if s.any (· ≠ '\n') then some [' '] else none
  | operand => if '\n' ∈ operand then none else some operand

/-- `\s*\[(.*)\]\s*$`. -/
def untilList (s : List Char) : Option (List Char) :=
  match s.dropWhile Text.isSpace with
  | '[' :: rest =>
      match (rstrip rest).reverse with
      | ']' :: listed => if '\n' ∈ listed then none else some listed.reverse
      | _ => none
  | _ => none

/-- What follows the path. -/
def untilTest? (s : List Char) : Option UntilTest :=
  match s.dropWhile Text.isSpace with
  | '=' :: '=' :: rest => UntilTest.equal <$> untilOperand rest
  | '!' :: '=' :: rest => UntilTest.unequal <$> untilOperand rest
  | 'i' :: 'n' :: rest => UntilTest.member <$> untilList rest
  | _ => none

/-- The longest path of at most `n` characters that a test follows. -/
def untilSplit (s : List Char) : ℕ → Option (String × UntilTest)
  | 0 => none
  | n + 1 =>
      match untilTest? (s.drop (n + 1)) with
      | some test => some (String.ofList (s.take (n + 1)), test)
      | none => untilSplit s n

/-- `_UNTIL.match`. -/
def parseUntil (expression : String) : Option (String × UntilTest) :=
  let s := expression.toList.dropWhile Text.isSpace
  untilSplit s (s.takeWhile isUntilPathChar).length

end Grammar

section Evaluate

variable (py : Interpreter)

/-- `_literal`. -/
def untilLiteral (token : List Char) : Value :=
  let text := Text.strip token
  match text, text.getLast? with
  | first :: _ :: _, some last =>
      if first = last && (first = '\'' || first = '"') then
        .str (String.ofList ((text.drop 1).dropLast))
      else bareLiteral text
  | _, _ => bareLiteral text
where
  bareLiteral (text : List Char) : Value :=
    if text = "true".toList then .bool true
    else if text = "false".toList then .bool false
    else if text = "null".toList || text = "none".toList then .null
    else
      match Text.int text, py.float (String.ofList text) with
      | some i, _ => .int i
      | none, some x => .scalar (.float x)
      | none, none => .str (String.ofList text)

/-- `_same` on a value that may be absent. -/
def sameAs (actual : Option Value) (expected : Value) : Bool :=
  actual.any fun v => same v expected

/-- `evaluate_until`. -/
def evaluateUntil (expression response : Value) : Except Exception Bool :=
  match expression.text? with
  | none => .error (.builtin .typeError)
  | some expression =>
      match parseUntil expression with
      | none => .error (.untilError
          (s!"cannot parse until expression {Text.repr expression}; expected " ++
            "`path == value`, `path != value` or `path in [a, b]`"))
      | some (path, test) => do
          let actual ← readPath response path
          match test with
          | .equal token => pure (sameAs actual (untilLiteral py token))
          | .unequal token => pure !(sameAs actual (untilLiteral py token))
          | .member list =>
              let tokens := (Text.split [','] list).filter fun token =>
                !(Text.strip token).isEmpty
              if tokens.isEmpty then
                throw (.untilError
                  s!"until expression {Text.repr expression} has an empty list")
              else pure (tokens.any fun token => sameAs actual (untilLiteral py token))

end Evaluate

section Conditions

variable (py : Interpreter)

/-- The operands listed between the brackets. -/
def untilTokens (list : List Char) : List (List Char) :=
  (Text.split [','] list).filter fun token => !(Text.strip token).isEmpty

namespace UntilTest

/-- A list of operands names at least one. -/
def Listed : UntilTest → Prop
  | member list => untilTokens list ≠ []
  | _ => True

/-- Whether the test is `!=`. -/
def isUnequal : UntilTest → Bool
  | unequal _ => true
  | _ => false

/-- What a test says of a value that was read. -/
def holds (actual : Value) : UntilTest → Bool
  | equal token => same actual (untilLiteral py token)
  | unequal token => !same actual (untilLiteral py token)
  | member list => (untilTokens list).any fun token => same actual (untilLiteral py token)

/-- What the runner answers where the path may have read nothing. -/
def answer (actual : Option Value) (test : UntilTest) : Bool :=
  (actual.map fun v => test.holds py v).getD test.isUnequal

end UntilTest

/-- An expression states a condition: the path it reads at, and the test. -/
def States (expression : Value) (path : String) (test : UntilTest) : Prop :=
  ∃ text, expression.text? = some text ∧ parseUntil text = some (path, test)

theorem States.unique {expression : Value} {path path' : String} {test test' : UntilTest}
    (h : States expression path test) (h' : States expression path' test') :
    path = path' ∧ test = test' := by
  obtain ⟨text, htext, hparse⟩ := h
  obtain ⟨text', htext', hparse'⟩ := h'
  obtain rfl : text = text' := Option.some.inj (htext.symm.trans htext')
  exact Prod.mk.inj (Option.some.inj (hparse.symm.trans hparse'))

variable {py}

/-- A condition is evaluated on what its path reads. -/
theorem evaluateUntil_of_states {expression response : Value} {path : String}
    {test : UntilTest} (h : States expression path test) (hlisted : test.Listed) :
    evaluateUntil py expression response =
      (fun actual => test.answer py actual) <$> readPath response path := by
  obtain ⟨text, htext, hparse⟩ := h
  unfold evaluateUntil
  rw [htext]
  simp only [hparse]
  cases readPath response path with
  | error e => rfl
  | ok actual =>
      cases test with
      | equal token => cases actual <;> rfl
      | unequal token => cases actual <;> rfl
      | member list =>
          have hne : (untilTokens list).isEmpty = false := List.isEmpty_eq_false_iff.mpr hlisted
          change (if (untilTokens list).isEmpty then _ else _) = _
          rw [hne]
          cases actual with
          | some v => rfl
          | none =>
              change Except.ok ((untilTokens list).any fun _ => false) = .ok false
              simp

/-- What does not state a condition, or lists no operand, is never evaluated. -/
theorem states_of_evaluateUntil {expression response : Value} {b : Bool}
    (h : evaluateUntil py expression response = .ok b) :
    ∃ path test, States expression path test ∧ test.Listed := by
  unfold evaluateUntil at h
  split at h
  · cases h
  next text htext =>
    split at h
    · cases h
    next path test hparse =>
      refine ⟨path, test, ⟨text, htext, hparse⟩, ?_⟩
      obtain ⟨actual, -, hanswer⟩ := bind_eq_ok_iff.mp h
      cases test with
      | equal token => trivial
      | unequal token => trivial
      | member list =>
          intro hempty
          have hguard : (untilTokens list).isEmpty = true := by rw [hempty]; rfl
          rw [untilTokens] at hguard
          simp only [hguard] at hanswer
          cases hanswer

/-- Evaluating a condition returns where it can be parsed and its path can be read. -/
theorem evaluateUntil_eq_ok_iff {expression response : Value} {b : Bool} :
    evaluateUntil py expression response = .ok b ↔
      ∃ path test actual, States expression path test ∧ test.Listed ∧
        readPath response path = .ok actual ∧ test.answer py actual = b := by
  constructor
  · intro h
    obtain ⟨path, test, hstates, hlisted⟩ := states_of_evaluateUntil h
    rw [evaluateUntil_of_states hstates hlisted, map_eq_ok_iff] at h
    obtain ⟨actual, hread, hanswer⟩ := h
    exact ⟨path, test, actual, hstates, hlisted, hread, hanswer⟩
  · rintro ⟨path, test, actual, hstates, hlisted, hread, hanswer⟩
    rw [evaluateUntil_of_states hstates hlisted, map_eq_ok_iff]
    exact ⟨actual, hread, hanswer⟩

end Conditions

example : parseUntil "status.state in [TASK_STATE_COMPLETED, x] " =
    some ("status.state", .member "TASK_STATE_COMPLETED, x".toList) := by decide

end A2aItk.Acts
