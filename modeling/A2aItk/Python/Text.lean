import Mathlib.Data.List.Basic
import Mathlib.Data.List.Infix
import Mathlib.Data.Int.Notation

/-!
# Python text primitives

The `str` methods a program in Python leans on, over lists of characters.
Unicode classes follow version 15.0 of the character database, the one
Python 3.12 ships.
-/

namespace A2aItk.Python

namespace Text

/-- The code points `str.strip` removes. -/
def whitespacePoints : List Nat :=
  [0x9, 0xa, 0xb, 0xc, 0xd, 0x1c, 0x1d, 0x1e, 0x1f, 0x20, 0x85, 0xa0, 0x1680,
    0x2000, 0x2001, 0x2002, 0x2003, 0x2004, 0x2005, 0x2006, 0x2007, 0x2008,
    0x2009, 0x200a, 0x2028, 0x2029, 0x202f, 0x205f, 0x3000]

def isSpace (c : Char) : Bool := c.toNat ∈ whitespacePoints

/-- The zero of every run of ten decimal digits, other than the ASCII one. -/
def decimalZeros : List Nat :=
  [0x660, 0x6f0, 0x7c0, 0x966, 0x9e6, 0xa66, 0xae6, 0xb66, 0xbe6, 0xc66, 0xce6,
    0xd66, 0xde6, 0xe50, 0xed0, 0xf20, 0x1040, 0x1090, 0x17e0, 0x1810, 0x1946,
    0x19d0, 0x1a80, 0x1a90, 0x1b50, 0x1bb0, 0x1c40, 0x1c50, 0xa620, 0xa8d0,
    0xa900, 0xa9d0, 0xa9f0, 0xaa50, 0xabf0, 0xff10, 0x104a0, 0x10d30, 0x11066,
    0x110f0, 0x11136, 0x111d0, 0x112f0, 0x11450, 0x114d0, 0x11650, 0x116c0,
    0x11730, 0x118e0, 0x11950, 0x11c50, 0x11d50, 0x11da0, 0x11f50, 0x16a60,
    0x16ac0, 0x16b50, 0x1d7ce, 0x1d7d8, 0x1d7e2, 0x1d7ec, 0x1d7f6, 0x1e140,
    0x1e2f0, 0x1e4f0, 0x1e950, 0x1fbf0]

/-- Digits that are not decimal: superscripts, circled digits and the like.
`str.isdigit` accepts them and `int` does not. -/
def otherDigits : List (Nat × Nat) :=
  [(0xb2, 0xb3), (0xb9, 0xb9), (0x1369, 0x1371), (0x19da, 0x19da),
    (0x2070, 0x2070), (0x2074, 0x2079), (0x2080, 0x2089), (0x2460, 0x2468),
    (0x2474, 0x247c), (0x2488, 0x2490), (0x24ea, 0x24ea), (0x24f5, 0x24fd),
    (0x24ff, 0x24ff), (0x2776, 0x277e), (0x2780, 0x2788), (0x278a, 0x2792),
    (0x10a40, 0x10a43), (0x10e60, 0x10e68), (0x11052, 0x1105a),
    (0x1f100, 0x1f10a)]

/-- The value of a decimal digit. -/
def decimal (c : Char) : Option Nat :=
  if c.isDigit then some (c.toNat - '0'.toNat)
  else (decimalZeros.find? fun z => z ≤ c.toNat && c.toNat < z + 10).map
    fun z => c.toNat - z

/-- One character of `str.isdigit`. -/
def isDigitChar (c : Char) : Bool :=
  (decimal c).isSome || otherDigits.any fun r => r.1 ≤ c.toNat && c.toNat ≤ r.2

/-- `str.isdigit`: false on the empty string. -/
def isDigit (s : List Char) : Bool := !s.isEmpty && s.all isDigitChar

/-- `str.strip()`. -/
def strip (s : List Char) : List Char :=
  ((s.dropWhile isSpace).reverse.dropWhile isSpace).reverse

/-- The worker of `split`: `skip` characters of a matched separator are still
to be passed over. -/
def splitGo (sep : List Char) : Nat → List Char → List Char → List (List Char)
  | _, part, [] => [part.reverse]
  | skip + 1, part, _ :: rest => splitGo sep skip part rest
  | 0, part, c :: rest =>
      if sep.isPrefixOf (c :: rest) then
        part.reverse :: splitGo sep (sep.length - 1) [] rest
      else splitGo sep 0 (c :: part) rest

/-- `str.split(sep)` for a nonempty separator. -/
def split (sep s : List Char) : List (List Char) := splitGo sep 0 [] s

/-- `str.partition(sep)`: the text before the first separator, whether there
was one, and the text after it. -/
def partition (sep : List Char) : List Char → List Char × Bool × List Char
  | [] => ([], false, [])
  | c :: rest =>
      if sep.isPrefixOf (c :: rest) then ([], true, (c :: rest).drop sep.length)
      else
        let tail := partition sep rest
        (c :: tail.1, tail.2.1, tail.2.2)

/-- The worker of `words`: `word` is the run under way, reversed. -/
def wordsGo : List Char → List Char → List (List Char)
  | word, [] => if word.isEmpty then [] else [word.reverse]
  | word, c :: rest =>
      if isSpace c then
        if word.isEmpty then wordsGo [] rest else word.reverse :: wordsGo [] rest
      else wordsGo (c :: word) rest

/-- `str.split()`: the runs of characters between whitespace. -/
def words (s : List Char) : List (List Char) := wordsGo [] s

/-- `str.rstrip(c)` for one character. -/
def rstripChar (c : Char) (s : List Char) : List Char :=
  (s.reverse.dropWhile (· == c)).reverse

/-- Digits after the first one, where a single underscore may stand between
two of them. -/
def intDigits : Nat → List Char → Option Nat
  | acc, [] => some acc
  | acc, '_' :: c :: rest => do
      let d ← decimal c
      intDigits (acc * 10 + d) rest
  | acc, c :: rest => do
      let d ← decimal c
      intDigits (acc * 10 + d) rest

/-- An unsigned `int` literal: a digit first, then digits and underscores. -/
def natLiteral : List Char → Option Nat
  | [] => none
  | c :: rest => do
      let d ← decimal c
      intDigits d rest

/-- `int(s)` on a stripped string; `none` is its `ValueError`. -/
def int : List Char → Option Int
  | '+' :: rest => (natLiteral rest).map Int.ofNat
  | '-' :: rest => (natLiteral rest).map fun n => -Int.ofNat n
  | s => (natLiteral s).map Int.ofNat

def hexDigit (n : Nat) : Char := if n < 10 then Char.ofNat (48 + n) else Char.ofNat (87 + n)

/-- The code points beyond ASCII that `str.isprintable` refuses: controls, separators, format
characters, private use and noncharacters. Code points that are merely unassigned are left out. -/
def unprintables : List (Nat × Nat) :=
  [(0x80, 0xa0), (0xad, 0xad), (0x600, 0x605), (0x61c, 0x61c), (0x6dd, 0x6dd), (0x70f, 0x70f),
    (0x890, 0x891), (0x8e2, 0x8e2), (0x1680, 0x1680), (0x180e, 0x180e), (0x2000, 0x200f),
    (0x2028, 0x202f), (0x205f, 0x2064), (0x2066, 0x206f), (0x3000, 0x3000), (0xe000, 0xf8ff),
    (0xfdd0, 0xfdef), (0xfeff, 0xfeff), (0xfff9, 0xfffb), (0x110bd, 0x110bd), (0x110cd, 0x110cd),
    (0x13430, 0x1343f), (0x1bca0, 0x1bca3), (0x1d173, 0x1d17a), (0xe0001, 0xe0001),
    (0xe0020, 0xe007f), (0xf0000, 0x10ffff)]

def isPrintable (c : Char) : Bool :=
  if c.toNat < 127 then 32 ≤ c.toNat
  else c.toNat ≠ 127 && c.toNat % 0x10000 < 0xfffe &&
    !unprintables.any fun range => range.1 ≤ c.toNat && c.toNat ≤ range.2

/-- The last digits of a number, to the base 16. -/
def hexDigits (n : Nat) : Nat → List Char
  | 0 => []
  | width + 1 => hexDigits (n / 16) width ++ [hexDigit (n % 16)]

/-- One character inside `repr`, in text delimited by `quote`. -/
def reprChar (quote c : Char) : List Char :=
  if c = quote || c = '\\' then ['\\', c]
  else if c = '\n' then ['\\', 'n']
  else if c = '\r' then ['\\', 'r']
  else if c = '\t' then ['\\', 't']
  else if isPrintable c then [c]
  else if c.toNat < 0x100 then '\\' :: 'x' :: hexDigits c.toNat 2
  else if c.toNat < 0x10000 then '\\' :: 'u' :: hexDigits c.toNat 4
  else '\\' :: 'U' :: hexDigits c.toNat 8

/-- `repr(s)`: single quotes, unless the text has some and no double ones. -/
def repr (s : String) : String :=
  let quote := if '\'' ∈ s.toList && '"' ∉ s.toList then '"' else '\''
  String.ofList (quote :: s.toList.flatMap (reprChar quote) ++ [quote])

example : repr "a\u00a0\u200b\x07é" = "'a\\xa0\\u200b\\x07é'" := by decide +kernel

section Digits

theorem decimal_of_isDigit {c : Char} (h : c.isDigit = true) :
    decimal c = some (c.toNat - '0'.toNat) := by
  simp [decimal, h]

theorem isDigitChar_of_isDigit {c : Char} (h : c.isDigit = true) :
    isDigitChar c = true := by
  simp [isDigitChar, decimal_of_isDigit h]

theorem not_isSpace_of_isDigit {c : Char} (h : c.isDigit = true) :
    isSpace c = false := by
  have hc : 48 ≤ c.toNat ∧ c.toNat ≤ 57 := by
    simpa [Char.isDigit, UInt32.le_iff_toNat_le] using h
  simp [isSpace, whitespacePoints]
  omega

theorem ne_of_isDigit {c d : Char} (h : c.isDigit = true) (hd : d.isDigit = false) :
    c ≠ d := by
  rintro rfl
  simp [h] at hd

/-- Plain digits survive `strip`. -/
theorem strip_of_isDigit {s : List Char} (h : ∀ c ∈ s, c.isDigit = true) :
    strip s = s := by
  have keep : ∀ l : List Char, (∀ c ∈ l, c.isDigit = true) →
      l.dropWhile isSpace = l := by
    intro l hl
    cases l with
    | nil => rfl
    | cons c rest =>
        simp [not_isSpace_of_isDigit (hl c (by simp))]
  rw [strip, keep s h, keep s.reverse (by simpa using h), List.reverse_reverse]

theorem isDigit_of_isDigit {s : List Char} (hne : s ≠ [])
    (h : ∀ c ∈ s, c.isDigit = true) : isDigit s = true := by
  simp only [isDigit, Bool.and_eq_true, Bool.not_eq_true', List.all_eq_true]
  exact ⟨by simpa using hne, fun c hc => isDigitChar_of_isDigit (h c hc)⟩

theorem intDigits_of_isDigit (s : List Char) (h : ∀ c ∈ s, c.isDigit = true)
    (acc : Nat) : intDigits acc s = some (Nat.ofDigitChars 10 s acc) := by
  induction s generalizing acc with
  | nil => simp [intDigits]
  | cons c rest ih =>
      have hc : c.isDigit = true := h c (by simp)
      have hu : c ≠ '_' := ne_of_isDigit hc (by decide)
      have hrest := ih (fun d hd => h d (by simp [hd])) (acc * 10 + (c.toNat - '0'.toNat))
      rw [intDigits]
      · rw [decimal_of_isDigit hc, Nat.ofDigitChars_cons, Nat.mul_comm 10 acc]
        exact hrest
      · intro d rest' hd
        exact absurd hd hu

/-- A nonempty run of plain digits is the literal of the number it spells. -/
theorem natLiteral_of_isDigit {s : List Char} (hne : s ≠ [])
    (h : ∀ c ∈ s, c.isDigit = true) : natLiteral s = some (Nat.ofDigitChars 10 s 0) := by
  cases s with
  | nil => exact absurd rfl hne
  | cons c rest =>
      have hc : c.isDigit = true := h c (by simp)
      have hrest := intDigits_of_isDigit rest (fun d hd => h d (by simp [hd]))
        (c.toNat - '0'.toNat)
      simp only [natLiteral, decimal_of_isDigit hc, Option.bind_eq_bind, Option.bind_some,
        hrest, Nat.ofDigitChars_cons, Nat.mul_zero, Nat.zero_add]

/-- `int` reads a nonempty run of plain digits as the number they spell. -/
theorem int_of_isDigit {s : List Char} (hne : s ≠ [])
    (h : ∀ c ∈ s, c.isDigit = true) :
    int s = some (Nat.ofDigitChars 10 s 0 : Nat) := by
  have hliteral := natLiteral_of_isDigit hne h
  cases s with
  | nil => exact absurd rfl hne
  | cons c rest =>
      have hc : c.isDigit = true := h c (by simp)
      have hplus : c ≠ '+' := ne_of_isDigit hc (by decide)
      have hminus : c ≠ '-' := ne_of_isDigit hc (by decide)
      rw [int, hliteral]
      · rfl
      · intro r hr
        exact hplus (List.cons.inj hr).1
      · intro r hr
        exact hminus (List.cons.inj hr).1

theorem isDigit_of_mem_repr {n : Nat} {c : Char} (h : c ∈ (Nat.repr n).toList) :
    c.isDigit = true := by
  rw [Nat.toList_repr] at h
  exact Nat.isDigit_of_mem_toDigits (by decide) (by decide) h

theorem repr_ne_nil (n : Nat) : (Nat.repr n).toList ≠ [] := by
  rw [Nat.toList_repr]
  exact Nat.toDigits_ne_nil

theorem natLiteral_repr (n : Nat) : natLiteral (Nat.repr n).toList = some n := by
  rw [natLiteral_of_isDigit (repr_ne_nil n) fun c hc => isDigit_of_mem_repr hc,
    Nat.toList_repr, Nat.ofDigitChars_ten_toDigits]

/-- A nonnegative reading: a string of digits carries no sign. -/
theorem int_nonneg_of_isDigit {s : List Char} (h : isDigit s = true) {i : Int}
    (hi : int s = some i) : 0 ≤ i := by
  cases s with
  | nil => simp [isDigit] at h
  | cons c rest =>
      have hc : isDigitChar c = true := by
        simp only [isDigit, List.all_cons, Bool.and_eq_true] at h
        exact h.2.1
      have hplus : c ≠ '+' := by rintro rfl; exact absurd hc (by decide)
      have hminus : c ≠ '-' := by rintro rfl; exact absurd hc (by decide)
      rw [int] at hi
      · obtain ⟨n, -, rfl⟩ := Option.map_eq_some_iff.mp hi
        exact Int.natCast_nonneg n
      · intro r hr
        exact hplus (List.cons.inj hr).1
      · intro r hr
        exact hminus (List.cons.inj hr).1

end Digits

section Separators

variable {sep : List Char}

theorem splitGo_ne_nil (skip : Nat) (part s : List Char) :
    splitGo sep skip part s ≠ [] := by
  induction s generalizing skip part with
  | nil => simp [splitGo]
  | cons c rest ih =>
      cases skip with
      | succ skip => simpa [splitGo] using ih skip part
      | zero =>
          simp only [splitGo]
          split
          · simp
          · exact ih 0 (c :: part)

/-- Skipping a matched separator drops its characters. -/
theorem splitGo_skip (skip : Nat) (part s : List Char) :
    splitGo sep skip part s = splitGo sep 0 part (s.drop skip) := by
  induction s generalizing skip with
  | nil => cases skip <;> simp [splitGo]
  | cons c rest ih =>
      cases skip with
      | zero => rfl
      | succ skip => simpa [splitGo] using ih skip

/-- The first part of a split and what follows, in terms of `partition`. -/
theorem splitGo_eq_partition (hsep : sep ≠ []) (part s : List Char) :
    splitGo sep 0 part s =
      (part.reverse ++ (partition sep s).1) ::
        if (partition sep s).2.1 then split sep (partition sep s).2.2 else [] := by
  induction s generalizing part with
  | nil => simp [splitGo, partition]
  | cons c rest ih =>
      simp only [splitGo, partition]
      split
      · have hlen : sep.length - 1 + 1 = sep.length := by
          have := List.length_pos_iff.mpr hsep
          omega
        rw [splitGo_skip, ← hlen, List.drop_succ_cons]
        simp [split]
      · rw [ih (c :: part)]
        simp

/-- A string that splits into two parts partitions into the same two. -/
theorem partition_of_split_eq_pair (hsep : sep ≠ []) {s a b : List Char}
    (h : split sep s = [a, b]) : partition sep s = (a, true, b) := by
  rw [split, splitGo_eq_partition hsep] at h
  obtain ⟨ha, htail⟩ := List.cons.inj h
  by_cases hfound : (partition sep s).2.1 = true
  · rw [if_pos hfound, split, splitGo_eq_partition hsep] at htail
    obtain ⟨hb, hrest⟩ := List.cons.inj htail
    have hlast : (partition sep (partition sep s).2.2).2.1 = false := by
      by_contra hne
      rw [if_pos (by simpa using hne)] at hrest
      exact splitGo_ne_nil _ _ _ hrest
    have hwhole : (partition sep (partition sep s).2.2).1 = (partition sep s).2.2 := by
      have miss : ∀ l : List Char, (partition sep l).2.1 = false →
          (partition sep l).1 = l := by
        intro l
        induction l with
        | nil => simp [partition]
        | cons c rest ih =>
            simp only [partition]
            split
            · simp
            · intro hl
              simpa using ih hl
      exact miss _ hlast
    rw [List.reverse_nil, List.nil_append, hwhole] at hb
    rw [List.reverse_nil, List.nil_append] at ha
    exact Prod.ext ha (Prod.ext hfound hb)
  · rw [if_neg hfound] at htail
    exact absurd htail (by simp)

/-- Text whose characters avoid the head of the separator is passed over. -/
theorem splitGo_append_of_notMem {d : Char} {ds : List Char} (hsep : sep = d :: ds)
    (a rest part : List Char) (ha : d ∉ a) :
    splitGo sep 0 part (a ++ rest) = splitGo sep 0 (a.reverse ++ part) rest := by
  induction a generalizing part with
  | nil => rfl
  | cons c tail ih =>
      have hc : c ≠ d := fun h => ha (by simp [h])
      have hno : sep.isPrefixOf (c :: (tail ++ rest)) = false := by
        simp [hsep, List.isPrefixOf, Ne.symm hc]
      rw [List.cons_append, splitGo, if_neg (by simp [hno]),
        ih (c :: part) (fun h => ha (by simp [h]))]
      simp

/-- Joining two texts free of the separator's head and splitting again. -/
theorem split_join {d : Char} {ds : List Char} (hsep : sep = d :: ds)
    {a b : List Char} (ha : d ∉ a) (hb : d ∉ b) :
    split sep (a ++ (sep ++ b)) = [a, b] := by
  have hpre : sep.isPrefixOf (sep ++ b) = true := by
    simp [List.isPrefixOf_iff_prefix]
  have htail : splitGo sep 0 [] b = [b] := by
    have h := splitGo_append_of_notMem hsep b [] [] hb
    simpa [splitGo] using h
  rw [split, splitGo_append_of_notMem hsep a _ [] ha, hsep, List.cons_append,
    splitGo, ← List.cons_append, ← hsep, if_pos hpre, splitGo_skip]
  have hdrop : (ds ++ b).drop (sep.length - 1) = b := by simp [hsep]
  rw [hdrop, htail]
  simp

end Separators

end Text

end A2aItk.Python
