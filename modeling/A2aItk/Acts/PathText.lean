import A2aItk.Acts.Paths
import A2aItk.Python.Joined
import Mathlib.Data.List.DropRight

/-!
# Rendered paths read back

A path of plain field names and positions, rendered by `formatPath`, parses to the
segments it was rendered from.
-/

namespace A2aItk.Acts

open Python

namespace Segment

/-- A field name a path can spell: not empty, without the punctuation of paths, and
without whitespace at either end. -/
def PlainName (name : String) : Prop :=
  name.toList ≠ [] ∧ (∀ c ∈ name.toList, isNameChar c = true) ∧
    Text.strip name.toList = name.toList

/-- A segment a path can spell and read back. -/
def Plain : Segment → Prop
  | key name => PlainName name
  | index position => 0 ≤ position
  | wildcard => False

/-- A field name as the parser reads one, whitespace at its ends included. -/
def NameText (name : String) : Prop :=
  name.toList ≠ [] ∧ ∀ c ∈ name.toList, isNameChar c = true

/-- A segment as the parser reads one. -/
def Lexical : Segment → Prop
  | key name => NameText name
  | _ => True

/-- A segment that is spelled the same wherever it stands in a path. -/
def Spelled : Segment → Prop
  | key name => PlainName name
  | _ => True

/-- A segment as it is rendered behind another. -/
def tail : Segment → List Char
  | key name => '.' :: name.toList
  | index position => '[' :: (toString position).toList ++ [']']
  | wildcard => ['[', '*', ']']

/-- The text of a path. -/
def render : List Segment → List Char
  | key name :: rest => name.toList ++ rest.flatMap tail
  | segments => segments.flatMap tail

end Segment

open Segment

section Format

theorem PlainName.nameText {name : String} (h : PlainName name) : NameText name := ⟨h.1, h.2.1⟩

theorem Segment.Plain.spelled {segment : Segment} (h : segment.Plain) : segment.Spelled := by
  cases segment with
  | key name => exact h
  | _ => trivial

theorem Segment.Spelled.lexical {segment : Segment} (h : segment.Spelled) : segment.Lexical := by
  cases segment with
  | key name => exact PlainName.nameText h
  | _ => trivial

/-- What `formatPath` appends for one segment. -/
theorem formatPath_append (segments : List Segment) (segment : Segment) :
    formatPath (segments ++ [segment]) =
      match segment with
      | .key name =>
          if formatPath segments = "" then name else formatPath segments ++ "." ++ name
      | .index position => formatPath segments ++ s!"[{position}]"
      | .wildcard => formatPath segments ++ "[*]" := by
  unfold formatPath
  rw [List.foldl_append]
  cases segment <;> rfl

theorem render_append {segments : List Segment} {segment : Segment} (h : segments ≠ []) :
    render (segments ++ [segment]) = render segments ++ segment.tail := by
  cases segments with
  | nil => exact absurd rfl h
  | cons first rest => cases first <;> simp [render]

theorem render_ne_nil {segments : List Segment} (h : segments ≠ [])
    (hlexical : ∀ segment ∈ segments, segment.Lexical) : render segments ≠ [] := by
  cases segments with
  | nil => exact absurd rfl h
  | cons first rest =>
      have hfirst := hlexical first (by simp)
      cases first with
      | key name => simp [render, hfirst.1]
      | index position => simp [render, Segment.tail]
      | wildcard => simp [render, Segment.tail]

theorem toList_formatPath {segments : List Segment}
    (hlexical : ∀ segment ∈ segments, segment.Lexical) :
    (formatPath segments).toList = render segments := by
  induction segments using List.reverseRecOn with
  | nil => rfl
  | append_singleton rest segment ih =>
      have hrest := ih fun s hs => hlexical s (by simp [hs])
      rw [formatPath_append]
      by_cases hempty : rest = []
      · subst hempty
        cases segment <;> simp [formatPath, render, Segment.tail, toString]
      · rw [render_append hempty, ← hrest]
        have hne : formatPath rest ≠ "" := by
          intro heq
          apply render_ne_nil hempty fun s hs => hlexical s (by simp [hs])
          rw [← hrest, heq]
          rfl
        cases segment <;> simp [hne, Segment.tail, toString]

end Format

section Strip

/-- Text that ends outside of whitespace loses whitespace in front only. -/
theorem strip_eq_dropWhile {s : List Char} (hlast : ∀ c ∈ s.getLast?, Text.isSpace c = false) :
    Text.strip s = s.dropWhile Text.isSpace := by
  have hend : ∀ c ∈ (s.dropWhile Text.isSpace).reverse.head?, Text.isSpace c = false := by
    intro c hc
    rw [List.head?_reverse] at hc
    obtain ⟨front, hfront⟩ := List.dropWhile_suffix (l := s) Text.isSpace
    apply hlast
    rw [← hfront, List.getLast?_append, Option.mem_def.mp hc]
    rfl
  rw [Text.strip, Text.dropWhile_eq_self hend, List.reverse_reverse]

theorem not_isSpace_head?_dropWhile (s : List Char) :
    ∀ c ∈ (s.dropWhile Text.isSpace).head?, Text.isSpace c = false := by
  intro c hc
  have hnot := List.head?_dropWhile_not Text.isSpace s
  rw [hc] at hnot
  exact hnot

theorem head?_strip (s : List Char) : ∀ c ∈ (Text.strip s).head?, Text.isSpace c = false := by
  intro c hc
  have hprefix : Text.strip s <+: s.dropWhile Text.isSpace :=
    List.rdropWhile_prefix Text.isSpace _
  apply not_isSpace_head?_dropWhile s
  obtain ⟨rest, hrest⟩ := hprefix
  rw [← hrest, List.head?_append, Option.mem_def.mp hc]
  rfl

theorem getLast?_strip (s : List Char) :
    ∀ c ∈ (Text.strip s).getLast?, Text.isSpace c = false := by
  intro c hc
  rw [Text.strip, List.getLast?_reverse] at hc
  exact not_isSpace_head?_dropWhile _ c hc

theorem head_of_strip_eq {s : List Char} (h : Text.strip s = s) :
    ∀ c ∈ s.head?, Text.isSpace c = false := by
  have hhead := head?_strip s
  rwa [h] at hhead

theorem getLast_of_strip_eq {s : List Char} (h : Text.strip s = s) :
    ∀ c ∈ s.getLast?, Text.isSpace c = false := by
  have hlast := getLast?_strip s
  rwa [h] at hlast

end Strip

section Parse

theorem takeWhile_append_of_head {p : Char → Bool} {name rest : List Char}
    (hname : ∀ c ∈ name, p c = true) (hrest : ∀ c ∈ rest.head?, p c = false) :
    (name ++ rest).takeWhile p = name := by
  rw [List.takeWhile_append_of_pos hname]
  cases rest with
  | nil => simp
  | cons c rest => simp [hrest c (by simp)]

/-- Nothing a segment starts with continues a field name. -/
theorem head_tails (segments : List Segment) :
    ∀ c ∈ (segments.flatMap Segment.tail).head?, isNameChar c = false := by
  cases segments with
  | nil => simp
  | cons segment rest =>
      cases segment <;> simp [Segment.tail, isNameChar]

theorem ne_bracket_of_isNameChar {c : Char} (h : isNameChar c = true) : c ≠ '[' := by
  rintro rfl
  simp [isNameChar] at h

/-- A name is read up to the first punctuation. -/
theorem next?_name {name : String} (hname : NameText name) {rest : List Char}
    (hrest : ∀ c ∈ rest.head?, isNameChar c = false) :
    next? (name.toList ++ rest) = some (.key name, rest) := by
  have htake := takeWhile_append_of_head hname.2 hrest
  cases hchars : name.toList with
  | nil => exact absurd hchars hname.1
  | cons c others =>
      have hc : c ≠ '[' := ne_bracket_of_isNameChar (hname.2 c (by simp [hchars]))
      rw [hchars, List.cons_append] at htake
      rw [List.cons_append, next?]
      · rw [htake]
        change some (Segment.key (String.ofList (c :: others)),
          ((c :: others) ++ rest).drop (c :: others).length) = _
        rw [List.drop_left, ← hchars, String.ofList_toList]
      · intro h
        cases h
      · intro r hr
        exact hc (List.cons.inj hr).1

/-- The digits of a number, and what follows them. -/
theorem takeWhile_repr (n : ℕ) (rest : List Char) :
    ((Nat.repr n).toList ++ ']' :: rest).takeWhile (fun c => (Text.decimal c).isSome) =
      (Nat.repr n).toList := by
  apply takeWhile_append_of_head
  · intro c hc
    simp [Text.decimal_of_isDigit (Text.isDigit_of_mem_repr hc)]
  · simp
    decide

theorem close_bracket (segment : Segment) (rest : List Char) :
    close segment (']' :: rest) = some (segment, rest) := rfl

theorem indexed_negative (n : ℕ) (rest : List Char) :
    indexed ('-' :: ((Nat.repr n).toList ++ ']' :: rest)) = some (.index (-n), rest) := by
  simp only [indexed, takeWhile_repr, Text.natLiteral_repr, List.drop_left, if_true, close_bracket]

theorem indexed_nonnegative (n : ℕ) (rest : List Char) :
    indexed ((Nat.repr n).toList ++ ']' :: rest) = some (.index n, rest) := by
  have hdigits := takeWhile_repr n rest
  have hliteral := Text.natLiteral_repr n
  cases hchars : (Nat.repr n).toList with
  | nil => exact absurd hchars (Text.repr_ne_nil n)
  | cons c digits =>
      have hc : c.isDigit = true := Text.isDigit_of_mem_repr (hchars ▸ List.mem_cons_self)
      have hminus : c ≠ '-' := Text.ne_of_isDigit hc (by decide)
      rw [hchars] at hdigits hliteral
      have hdrop : (c :: (digits ++ ']' :: rest)).drop (c :: digits).length = ']' :: rest :=
        List.drop_left
      rw [List.cons_append] at hdigits ⊢
      unfold indexed
      split
      rename_i negative r heq
      split at heq
      · rename_i hsign
        exact absurd (List.cons.inj hsign).1 hminus
      · cases heq
        simp only [hdigits, hliteral, hdrop]
        rfl

/-- What a rendered number starts with. -/
theorem head_toString (position : ℤ) :
    ∃ c rest, (toString position).toList = c :: rest ∧ Text.isSpace c = false ∧ c ≠ '*' := by
  cases position with
  | ofNat n =>
      cases hchars : (Nat.repr n).toList with
      | nil => exact absurd hchars (Text.repr_ne_nil n)
      | cons c rest =>
          have hc : c.isDigit = true := Text.isDigit_of_mem_repr (hchars ▸ List.mem_cons_self)
          exact ⟨c, rest, hchars, Text.not_isSpace_of_isDigit hc,
            Text.ne_of_isDigit hc (by decide)⟩
  | negSucc n =>
      refine ⟨'-', (Nat.repr (n + 1)).toList, ?_, by decide, by decide⟩
      change ("-" ++ Nat.repr (n + 1)).toList = _
      simp

theorem indexed_toString (position : ℤ) (rest : List Char) :
    indexed ((toString position).toList ++ ']' :: rest) = some (.index position, rest) := by
  cases position with
  | ofNat n => exact indexed_nonnegative n rest
  | negSucc n =>
      have htext : (toString (Int.negSucc n)).toList = '-' :: (Nat.repr (n + 1)).toList := by
        change ("-" ++ Nat.repr (n + 1)).toList = _
        simp
      rw [htext, List.cons_append, indexed_negative]
      rfl

theorem next?_index (position : ℤ) (rest : List Char) :
    next? ((Segment.index position).tail ++ rest) = some (.index position, rest) := by
  obtain ⟨c, others, hchars, hspace, hstar⟩ := head_toString position
  have hindexed := indexed_toString position rest
  have hall : (Segment.index position).tail ++ rest =
      '[' :: ((toString position).toList ++ ']' :: rest) := by
    simp [Segment.tail]
  rw [hall]
  rw [hchars, List.cons_append] at hindexed ⊢
  have hdrop : (c :: (others ++ ']' :: rest)).dropWhile Text.isSpace =
      c :: (others ++ ']' :: rest) := by
    simp [hspace]
  rw [next?, hdrop]
  split
  · rename_i r heq
    exact absurd (List.cons.inj heq).1 hstar
  · exact hindexed

theorem next?_wildcard (rest : List Char) :
    next? (Segment.wildcard.tail ++ rest) = some (.wildcard, rest) := rfl

variable {path : String} {total : ℕ}

/-- The rest of a match is passed over. -/
theorem parseSegments_skip (passed rest : List Char) :
    parseSegments path total passed.length [] (passed ++ rest) =
      parseSegments path total 0 [] rest := by
  induction passed with
  | nil => rfl
  | cons c others ih => exact ih

theorem parseSegments_found {gap chunk after : List Char} {segment : Segment}
    (hchunk : chunk ≠ []) (h : next? (chunk ++ after) = some (segment, after))
    (hgap : (gap.isEmpty || gap = ['.']) = true) :
    parseSegments path total 0 gap (chunk ++ after) =
      (do
        let others ← parseSegments path total 0 [] after
        pure (segment :: others)) := by
  cases chunk with
  | nil => exact absurd rfl hchunk
  | cons c rest =>
      rw [List.cons_append] at h ⊢
      have hlen : (rest ++ after).length - after.length = rest.length := by simp
      rw [parseSegments, h]
      simp only [hgap, if_true, hlen, parseSegments_skip]

theorem next?_dot (rest : List Char) : next? ('.' :: rest) = none := by
  simp [next?, isNameChar]

theorem tail_ne_nil (segment : Segment) : segment.tail ≠ [] := by
  cases segment <;> simp [Segment.tail]

/-- Segments behind one another are read back, whatever whitespace their names have. -/
theorem parseSegments_tails {segments : List Segment}
    (hlexical : ∀ segment ∈ segments, segment.Lexical) :
    parseSegments path total 0 [] (segments.flatMap Segment.tail) = .ok segments := by
  induction segments with
  | nil => rfl
  | cons segment rest ih =>
      have hrest := ih fun s hs => hlexical s (by simp [hs])
      have hsegment := hlexical segment (by simp)
      rw [List.flatMap_cons]
      cases segment with
      | key name =>
          rw [Segment.tail, List.cons_append, parseSegments, next?_dot]
          rw [List.nil_append, parseSegments_found hsegment.1
            (next?_name hsegment (head_tails rest)) rfl, hrest]
          rfl
      | index position =>
          rw [parseSegments_found (tail_ne_nil _) (next?_index position _) rfl, hrest]
          rfl
      | wildcard =>
          rw [parseSegments_found (tail_ne_nil _) (next?_wildcard _) rfl, hrest]
          rfl

theorem parseSegments_render {segments : List Segment}
    (hlexical : ∀ segment ∈ segments, segment.Lexical) :
    parseSegments path total 0 [] (render segments) = .ok segments := by
  cases segments with
  | nil => rfl
  | cons segment rest =>
      cases segment with
      | key name =>
          have hname : NameText name := hlexical (.key name) (by simp)
          have hrest : parseSegments path total 0 [] (rest.flatMap Segment.tail) = .ok rest :=
            parseSegments_tails fun s hs => hlexical s (List.mem_cons_of_mem _ hs)
          rw [render, parseSegments_found hname.1 (next?_name hname (head_tails rest)) rfl, hrest]
          rfl
      | index position => exact parseSegments_tails hlexical
      | wildcard => exact parseSegments_tails hlexical

end Parse

section RoundTrip

/-- The segment is no name that ends in whitespace. -/
def Segment.EndsFull : Segment → Prop
  | key name => ∀ c ∈ name.toList.getLast?, Text.isSpace c = false
  | _ => True

theorem Segment.Spelled.endsFull {segment : Segment} (h : segment.Spelled) :
    segment.EndsFull := by
  cases segment with
  | key name => exact getLast_of_strip_eq h.2.2
  | _ => trivial

theorem getLast_tail {segment : Segment} (hlexical : segment.Lexical) (h : segment.EndsFull) :
    ∀ c ∈ segment.tail.getLast?, Text.isSpace c = false := by
  cases segment with
  | key name => rwa [Segment.tail, List.getLast?_cons_of_ne_nil hlexical.1]
  | index position =>
      rw [Segment.tail, List.getLast?_concat]
      intro c hc
      cases hc
      decide
  | wildcard =>
      intro c hc
      cases hc
      decide

variable {segments : List Segment}

/-- The end of a path is the end of its last segment. -/
theorem getLast_tails (hlexical : ∀ segment ∈ segments, segment.Lexical)
    (hlast : ∀ segment ∈ segments.getLast?, segment.EndsFull) :
    ∀ c ∈ (segments.flatMap Segment.tail).getLast?, Text.isSpace c = false := by
  cases segments using List.reverseRecOn with
  | nil => simp
  | append_singleton rest last =>
      rw [List.flatMap_append, List.flatMap_singleton,
        List.getLast?_append_of_ne_nil _ (tail_ne_nil last)]
      exact getLast_tail (hlexical last (by simp)) (hlast last (by simp))

theorem getLast_render (hlexical : ∀ segment ∈ segments, segment.Lexical)
    (hlast : ∀ segment ∈ segments.getLast?, segment.EndsFull) :
    ∀ c ∈ (render segments).getLast?, Text.isSpace c = false := by
  have hends := getLast_tails hlexical hlast
  cases segments with
  | nil => exact hends
  | cons first rest =>
      cases first with
      | key name =>
          have hname : name.toList ≠ [] := (hlexical (.key name) (by simp)).1
          rwa [List.flatMap_cons, Segment.tail, List.cons_append,
            List.getLast?_cons_of_ne_nil (by simp [hname])] at hends
      | index position => exact hends
      | wildcard => exact hends

theorem head_render (hlexical : ∀ segment ∈ segments, segment.Lexical)
    (hfirst : ∀ name, segments.head? = some (.key name) →
      ∀ c ∈ name.toList.head?, Text.isSpace c = false) :
    ∀ c ∈ (render segments).head?, Text.isSpace c = false := by
  cases segments with
  | nil => simp [render]
  | cons first rest =>
      cases first with
      | key name =>
          have hname : name.toList ≠ [] := (hlexical (.key name) (by simp)).1
          rw [render, List.head?_append_of_ne_nil _ hname]
          exact hfirst name rfl
      | index position =>
          simp [render, Segment.tail]
          decide
      | wildcard =>
          simp [render, Segment.tail]
          decide

/-- A path is read back unless it starts or ends in the whitespace of a name. -/
theorem parsePath_formatPath_of_ends (hlexical : ∀ segment ∈ segments, segment.Lexical)
    (hfirst : ∀ name, segments.head? = some (.key name) →
      ∀ c ∈ name.toList.head?, Text.isSpace c = false)
    (hlast : ∀ segment ∈ segments.getLast?, segment.EndsFull) :
    parsePath (formatPath segments) = .ok segments := by
  have hstrip : Text.strip (render segments) = render segments :=
    Text.strip_eq_self (head_render hlexical hfirst) (getLast_render hlexical hlast)
  rw [parsePath, toList_formatPath hlexical, hstrip]
  exact parseSegments_render hlexical

theorem parsePath_formatPath_of_spelled (hspelled : ∀ segment ∈ segments, segment.Spelled) :
    parsePath (formatPath segments) = .ok segments := by
  apply parsePath_formatPath_of_ends fun s hs => (hspelled s hs).lexical
  · intro name hname
    exact head_of_strip_eq (hspelled (.key name) (List.mem_of_mem_head? hname)).2.2
  · intro segment hsegment
    exact (hspelled segment (List.mem_of_mem_getLast? hsegment)).endsFull

/-- A rendered path parses to the segments it was rendered from. -/
theorem parsePath_formatPath (hplain : ∀ segment ∈ segments, segment.Plain) :
    parsePath (formatPath segments) = .ok segments :=
  parsePath_formatPath_of_spelled fun s hs => (hplain s hs).spelled

end RoundTrip

end A2aItk.Acts
