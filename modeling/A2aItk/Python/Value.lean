import A2aItk.Python.Text
import Mathlib.Data.Rat.Defs
import Mathlib.Algebra.Order.Ring.Rat

/-!
# Plain data

What a parsed YAML or JSON document is made of: scalars, lists and mappings.
JSON objects have text keys; a YAML mapping may have any scalar as a key.

## Implementation notes

A mapping is its list of entries. Floats are exact: the extended rationals with
`nan`. What the interpreter decides about floats as text and about regular
expressions is the parameter `Interpreter`.
-/

namespace A2aItk.Python

/-- A float, by value. -/
inductive PyFloat
  | finite (q : ℚ)
  | inf (negative : Bool)
  | nan
  deriving DecidableEq

namespace PyFloat

/-- `==`. -/
def eq : PyFloat → PyFloat → Bool
  | finite p, finite q => p = q
  | inf a, inf b => a = b
  | _, _ => false

/-- `<`. -/
def lt : PyFloat → PyFloat → Bool
  | finite p, finite q => p < q
  | finite _, inf negative => !negative
  | inf negative, finite _ => negative
  | inf a, inf b => a && !b
  | _, _ => false

/-- `<=`. -/
def le (a b : PyFloat) : Bool := lt a b || eq a b

end PyFloat

/-- A scalar of YAML or JSON. Timestamps and binary data are `other`, known by
their text. -/
inductive Scalar
  | null
  | bool (b : Bool)
  | int (i : ℤ)
  | float (x : PyFloat)
  | str (s : String)
  | other (text : String)
  deriving DecidableEq

/-- Parsed data. -/
inductive Value
  | scalar (s : Scalar)
  | list (items : List Value)
  | dict (entries : List (Scalar × Value))

/-- What the model takes from the interpreter: regular expressions, floats as
text, and letter case. -/
structure Interpreter where
  /-- `re.search(pattern, text) is not None`; `none` when the pattern does not compile. -/
  search : String → String → Option Bool
  /-- `repr` of a float. -/
  floatRepr : PyFloat → String
  /-- `float(text)`; `none` is its `ValueError`. -/
  float : String → Option PyFloat
  /-- `text.lower()`. -/
  lower : String → String

/-- An interpreter for texts without floats, upper case letters or characters that
mean something in a pattern. -/
def Interpreter.plain : Interpreter where
  search pattern text := some (decide (pattern.toList <:+: text.toList))
  floatRepr _ := ""
  float _ := none
  lower text := text

namespace Scalar

/-- A scalar as a number. `bool` subclasses `int`. -/
def number? : Scalar → Option PyFloat
  | bool b => some (.finite (if b then 1 else 0))
  | int i => some (.finite i)
  | float x => some x
  | _ => none

/-- `==`, which compares numbers by value. -/
def eq (a b : Scalar) : Bool :=
  match a.number?, b.number? with
  | some x, some y => x.eq y
  | none, none => a = b
  | _, _ => false

/-- `bool(s)`. -/
def truthy : Scalar → Bool
  | null => false
  | bool b => b
  | int i => i ≠ 0
  | float x => x ≠ .finite 0
  | str s => s ≠ ""
  | other _ => true

/-- `repr(s)`. -/
def repr (py : Interpreter) : Scalar → String
  | null => "None"
  | bool b => if b then "True" else "False"
  | int i => toString i
  | float x => py.floatRepr x
  | str s => Text.repr s
  | other text => text

/-- `str(s)`. -/
def text (py : Interpreter) : Scalar → String
  | str s => s
  | s => s.repr py

end Scalar

namespace Value

/-- The value a JSON `null` or a missing YAML value parses to. -/
abbrev null : Value := .scalar .null

abbrev bool (b : Bool) : Value := .scalar (.bool b)

abbrev int (i : ℤ) : Value := .scalar (.int i)

abbrev str (s : String) : Value := .scalar (.str s)

/-- A mapping with text keys. -/
def object (fields : List (String × Value)) : Value :=
  .dict (fields.map fun field => (.str field.1, field.2))

/-- `bool(v)`. -/
def truthy : Value → Bool
  | .scalar s => s.truthy
  | .list items => !items.isEmpty
  | .dict entries => !entries.isEmpty

/-- The value a key is mapped to. -/
def lookup (key : Scalar) (entries : List (Scalar × Value)) : Option Value :=
  (entries.find? fun entry => entry.1.eq key).map Prod.snd

/-- `v[key]` when `v` is a mapping that has the key. -/
def get? (v : Value) (key : Scalar) : Option Value :=
  match v with
  | .dict entries => lookup key entries
  | _ => none

/-- `isinstance(v, list)`. -/
def array? : Value → Option (List Value)
  | .list items => some items
  | _ => none

/-- `isinstance(v, Mapping)`. -/
def isMapping : Value → Bool
  | .dict _ => true
  | _ => false

/-- `isinstance(v, str)`. -/
def text? : Value → Option String
  | .scalar (.str s) => some s
  | _ => none

/-- `v is None`. -/
def isNull : Value → Bool
  | .scalar .null => true
  | _ => false

/-- `isinstance(v, bool)`. -/
def isBool : Value → Bool
  | .scalar (.bool _) => true
  | _ => false

/-- A JSON number: `bool` is not one. -/
def number? : Value → Option PyFloat
  | .scalar (.int i) => some (.finite i)
  | .scalar (.float x) => some x
  | _ => none

mutual

/-- `==`. -/
def eq : Value → Value → Bool
  | .scalar a, .scalar b => a.eq b
  | .list as, .list bs => eqItems as bs
  | .dict as, .dict bs => as.length == bs.length && eqEntries as bs
  | _, _ => false

def eqItems : List Value → List Value → Bool
  | [], [] => true
  | a :: as, b :: bs => eq a b && eqItems as bs
  | _, _ => false

/-- Every entry of the first mapping is one of the second. -/
def eqEntries : List (Scalar × Value) → List (Scalar × Value) → Bool
  | [], _ => true
  | (key, a) :: rest, bs =>
      (match lookup key bs with
        | some b => eq a b
        | none => false) && eqEntries rest bs

end

mutual

/-- `repr(v)`. -/
def repr (py : Interpreter) : Value → String
  | .scalar s => s.repr py
  | .list items => "[" ++ ", ".intercalate (reprItems py items) ++ "]"
  | .dict entries => "\x7b" ++ ", ".intercalate (reprEntries py entries) ++ "\x7d"

def reprItems (py : Interpreter) : List Value → List String
  | [] => []
  | v :: rest => repr py v :: reprItems py rest

def reprEntries (py : Interpreter) : List (Scalar × Value) → List String
  | [] => []
  | (key, v) :: rest => (key.repr py ++ ": " ++ repr py v) :: reprEntries py rest

end

/-- `str(v)`: text stands for itself. -/
def text (py : Interpreter) (v : Value) : String := v.text?.getD (v.repr py)

/-- The property holds of every smaller value. -/
def Below (P : Value → Prop) (v : Value) : Prop := ∀ w : Value, sizeOf w < sizeOf v → P w

/-- A property that passes from everything below a value to the value holds of all values. -/
theorem induction_below {P : Value → Prop} (h : ∀ v, Below P v → P v) (v : Value) : P v :=
  h v fun w _ => induction_below h w
termination_by sizeOf v

namespace Below

variable {P : Value → Prop} {v : Value}

theorem mono {w : Value} (h : Below P v) (hw : sizeOf w ≤ sizeOf v) : Below P w :=
  fun u hu => h u (by omega)

theorem of_mem_list {items : List Value} (h : Below P (.list items)) (hv : v ∈ items) :
    P v ∧ Below P v := by
  have hsize : sizeOf v < sizeOf (Value.list items) := by
    have := List.sizeOf_lt_of_mem hv
    simp only [list.sizeOf_spec]
    omega
  exact ⟨h v hsize, h.mono hsize.le⟩

theorem of_mem_dict {entries : List (Scalar × Value)} {key : Scalar}
    (h : Below P (.dict entries)) (hv : (key, v) ∈ entries) : P v ∧ Below P v := by
  have hsize : sizeOf v < sizeOf (Value.dict entries) := by
    have := List.sizeOf_lt_of_mem hv
    simp only [dict.sizeOf_spec, Prod.mk.sizeOf_spec] at this ⊢
    omega
  exact ⟨h v hsize, h.mono hsize.le⟩

end Below

example : (object [("a", .int 1), ("b", .bool true)]).eq
    (object [("b", .int 1), ("a", .int 1)]) = true := by decide

end Value

end A2aItk.Python
