import A2aItk.Acts.Wire

/-!
# Dot-paths

`task.artifacts[0].parts[*].text`: how a path is split into segments, rendered
back, and read out of a response. An absent value reads as `none`.
-/

namespace A2aItk.Acts

open Python

/-- A segment of a dot-path: a named field, an array position, or every element. -/
inductive Segment
  | key (name : String)
  | index (position : ℤ)
  | wildcard
  deriving DecidableEq

namespace Segment

/-- What a field name is made of: `[^.\[\]]`. -/
def isNameChar (c : Char) : Bool := c ≠ '.' && c ≠ '[' && c ≠ ']'

/-- The closing half of a bracket: `\s*\]`. -/
def close (segment : Segment) (s : List Char) : Option (Segment × List Char) :=
  match s.dropWhile Text.isSpace with
  | ']' :: rest => some (segment, rest)
  | _ => none

/-- `-?\d+` and the closing bracket. -/
def indexed (s : List Char) : Option (Segment × List Char) :=
  let (negative, s) := match s with
    | '-' :: rest => (true, rest)
    | _ => (false, s)
  let digits := s.takeWhile fun c => (Text.decimal c).isSome
  match Text.natLiteral digits with
  | some n => close (.index (if negative then -n else n)) (s.drop digits.length)
  | none => none

/-- One match of `\[\s*(\*|-?\d+)\s*\]|([^.\[\]]+)` at the head of the text, and
what follows it. -/
def next? (s : List Char) : Option (Segment × List Char) :=
  match s with
  | [] => none
  | '[' :: rest =>
      match rest.dropWhile Text.isSpace with
      | '*' :: rest => close .wildcard rest
      | rest => indexed rest
  | _ =>
      match s.takeWhile isNameChar with
      | [] => none
      | name => some (.key (String.ofList name), s.drop name.length)

end Segment

/-- The loop over the matches: `skip` characters of the last match are still to be
passed over, and `gap` is the text since then. -/
def parseSegments (path : String) (total : ℕ) :
    ℕ → List Char → List Char → Except Exception (List Segment)
  | skip + 1, gap, _ :: rest => parseSegments path total skip gap rest
  | _ + 1, _, [] => .ok []
  | 0, gap, [] =>
      if gap.isEmpty then .ok []
      else .error (.pathError
        s!"cannot parse {Text.repr path}: trailing {Text.repr (String.ofList gap)}")
  | 0, gap, c :: rest =>
      match Segment.next? (c :: rest) with
      | none => parseSegments path total 0 (gap ++ [c]) rest
      | some (segment, after) =>
          if gap.isEmpty || gap = ['.'] then do
            let others ← parseSegments path total (rest.length - after.length) [] rest
            pure (segment :: others)
          else
            let position := total - gap.length - (rest.length + 1)
            let shown := Text.repr (String.ofList gap)
            .error (.pathError s!"cannot parse {Text.repr path} at offset {position}: {shown}")

/-- Split a dot-path into segments. The empty path addresses the root. -/
def parsePath (path : String) : Except Exception (List Segment) :=
  let text := Text.strip path.toList
  parseSegments path text.length 0 [] text

/-- Render segments back to a dot-path. -/
def formatPath (segments : List Segment) : String :=
  segments.foldl (fun out segment =>
    match segment with
    | .key name => if out = "" then name else out ++ "." ++ name
    | .index position => out ++ s!"[{position}]"
    | .wildcard => out ++ "[*]") ""

namespace Segment

/-- Follow a key or an index. A negative index counts from the end. -/
def follow (value : Value) : Segment → Option Value
  | key name => value.get? (.str name)
  | index position => do
      let items ← value.array?
      let position := if position < 0 then position + items.length else position
      if position < 0 then none else items[position.toNat]?
  | wildcard => none

/-- Follow one segment; `[*]` is no position. -/
def step (value : Value) (segment : Segment) : Except Exception (Option Value) :=
  match segment with
  | wildcard => .error (.pathError "`[*]` is only valid in a collection assertion path")
  | segment => .ok (follow value segment)

end Segment

/-- Read segments one after the other, until one reads nothing. -/
def readSegments (value : Value) : List Segment → Except Exception (Option Value)
  | [] => .ok (some value)
  | segment :: rest => do
      match ← segment.step value with
      | none => pure none
      | some inner => readSegments inner rest

/-- Read a dot-path out of a value. -/
def readPath (value : Value) (path : String) : Except Exception (Option Value) := do
  readSegments value (← parsePath path)

/-- Every value a wildcard path reaches, each with its concrete path. -/
def walk (value : Value) : List Segment → List Segment → List (String × Value)
  | [], reached => [(formatPath reached, value)]
  | .wildcard :: tail, reached =>
      (value.array?.getD []).zipIdx.flatMap fun element =>
        walk element.1 tail (reached ++ [.index element.2])
  | head :: tail, reached =>
      match head.follow value with
      | some inner => walk inner tail (reached ++ [head])
      | none => []

def readPathAll (value : Value) (path : String) : Except Exception (List (String × Value)) := do
  pure (walk value (← parsePath path) [])

example : (parsePath "task.artifacts[0].parts[*]").toOption =
    some [.key "task", .key "artifacts", .index 0, .key "parts", .wildcard] := by decide

end A2aItk.Acts
