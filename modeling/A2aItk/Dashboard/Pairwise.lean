import A2aItk.Dashboard.Summary
import A2aItk.Python.Grouping
import Mathlib.Data.List.Lex

/-!
# Pairwise cards

`pairwiseGroups` of `dashboard/src/itk/lib.ts`: one card for each pair of agents, in the
order of the summary star.

## Implementation notes

Texts are sorted by UTF-16 code units. Characters beyond the basic plane start with a
surrogate, which puts them before U+E000 and behind everything below it.
-/

namespace A2aItk.Dashboard

open Python

/-- The scenarios of one pair, and what is drawn for them. -/
structure PairwiseGroup where
  key : String
  sdks : List String
  edges : List String
  scenarios : List Scenario

section Keys

/-- Where a character stands in the order of code units. -/
def codeUnitRank (c : Char) : ℕ :=
  if 0xE000 ≤ c.toNat ∧ c.toNat < 0x10000 then c.toNat + 0x110000 else c.toNat

/-- The order `sort()` puts texts in. -/
def textLe (a b : String) : Bool := a.toList.map codeUnitRank ≤ b.toList.map codeUnitRank

variable (letters : LetterCase)

/-- `[A,B]` and `[B,A]` must land in the same bucket. -/
def pairKey (sdks : List String) : String :=
  ",".intercalate ((sdks.map letters.toLowerCase).mergeSort textLe)

/-- `key.split(",")`. -/
def keyParts (key : String) : List String := (Text.split [','] key.toList).map String.ofList

/-- A scenario of two agents. -/
def isPair (scenario : Scenario) : Bool := scenario.sdks.length = 2

/-- One more pair, unless it is there already. -/
def addKey (keys : List String) (scenario : Scenario) : List String :=
  if isPair scenario && pairKey letters scenario.sdks ∉ keys then
    keys ++ [pairKey letters scenario.sdks]
  else keys

/-- The pairs in the order in which they first come up. -/
def pairKeys (scenarios : List Scenario) : List String := scenarios.foldl (addKey letters) []

end Keys

section Order

variable (letters : LetterCase) (summarySdks : List String)

/-- Where the summary has an agent; behind all others if nowhere. -/
def rank (sdk : String) : ℕ :=
  (summarySdks.findIdx? fun s => letters.toLowerCase s = letters.toLowerCase sdk).getD 999

/-- Both places of a pair, the earlier one first. -/
def ranksOf (key : String) : List ℕ :=
  ((keyParts key).map (rank letters summarySdks)).mergeSort (· ≤ ·)

/-- Pairs are ordered by their places. -/
def keyLe (a b : String) : Bool :=
  match ranksOf letters summarySdks a, ranksOf letters summarySdks b with
  | a0 :: a1 :: _, b0 :: b1 :: _ => if a0 ≠ b0 then a0 < b0 else a1 ≤ b1
  | _, _ => true

/-- The agents of a key, in display order. -/
def displaySdks (key : String) : List String :=
  (keyParts key).mergeSort fun a b => rank letters summarySdks a ≤ rank letters summarySdks b

end Order

section Flips

/-- The other end of an edge between two. -/
def flip (digits : List Char) : List Char := if digits = ['0'] then ['1'] else ['0']

/-- `e.replace(/(\d+)->(\d+)/, flip)`: the first place where digits stand on both sides. -/
def replaceArrow : List Char → List Char
  | [] => []
  | c :: rest =>
      match (c :: rest).takeWhile Char.isDigit, (c :: rest).dropWhile Char.isDigit with
      | d :: digits, '-' :: '>' :: tail =>
          if tail.takeWhile Char.isDigit = [] then c :: replaceArrow rest
          else flip (d :: digits) ++ '-' :: '>' :: (flip (tail.takeWhile Char.isDigit) ++
            tail.dropWhile Char.isDigit)
      | _, _ => c :: replaceArrow rest

/-- An edge with its ends exchanged. -/
def flipEdge (edge : String) : String := String.ofList (replaceArrow edge.toList)

end Flips

section Groups

variable (letters : LetterCase) (scenarios : List Scenario) (summarySdks : List String)

/-- The two-agent scenarios with a key. -/
def groupOf (key : String) : List Scenario :=
  scenarios.filter fun s => isPair s && pairKey letters s.sdks = key

/-- Listed in this order. -/
def inOrder (sdks : List String) (scenario : Scenario) : Bool :=
  letters.toLowerCase (scenario.sdks.getD 0 "") = sdks.getD 0 "" &&
    letters.toLowerCase (scenario.sdks.getD 1 "") = sdks.getD 1 ""

/-- A scenario in this order, or else the first one. -/
def sourceOf (sdks : List String) (group : List Scenario) : Option Scenario :=
  group.find? (inOrder letters sdks) <|> group.head?

/-- The edges of a group, exchanged where its scenarios have the agents the other way round. -/
def edgesOf (sdks : List String) (group : List Scenario) : List String :=
  let edges := ((sourceOf letters sdks group).bind Scenario.edges).getD []
  let first := ((sourceOf letters sdks group).map fun source => source.sdks.getD 0 "").getD ""
  if (group.find? (inOrder letters sdks)).isNone && letters.toLowerCase first ≠ sdks.getD 0 ""
  then edges.map flipEdge else edges

/-- The group of one pair. -/
def pairwiseGroup (key : String) : PairwiseGroup :=
  let group := groupOf letters scenarios key
  let sdks := displaySdks letters summarySdks key
  ⟨key, sdks, edgesOf letters sdks group, group⟩

/-- The groups, in the order of the summary. -/
def pairwiseGroups : List PairwiseGroup :=
  ((pairKeys letters scenarios).mergeSort (keyLe letters summarySdks)).map
    (pairwiseGroup letters scenarios summarySdks)

end Groups

end A2aItk.Dashboard
