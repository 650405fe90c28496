import Mathlib.Data.List.Infix
import Mathlib.Data.Set.Basic

/-!
# Patterns in text

`re.search` for a pattern given by the words it matches, and where such a word
can lie in a text that is put together from fixed and free parts.
-/

namespace A2aItk.Python

namespace Pattern

variable {α β : Type*}

/-- `pattern.search`: the first position at which `matchAt` succeeds. -/
def search (matchAt : List α → Option β) (s : List α) : Option β := s.tails.findSome? matchAt

/-- A word of the language lies somewhere in the text. -/
def Occurs (L : Set (List α)) (s : List α) : Prop := ∃ m ∈ L, m <:+: s

variable {L : Set (List α)} {s : List α}

theorem search_isSome_iff {matchAt : List α → Option β}
    (hmatch : ∀ t, (matchAt t).isSome = true ↔ ∃ m ∈ L, m <+: t) :
    (search matchAt s).isSome = true ↔ Occurs L s := by
  rw [search, List.findSome?_isSome_iff]
  constructor
  · rintro ⟨t, ht, hsome⟩
    obtain ⟨m, hm, hbegin⟩ := (hmatch t).mp hsome
    exact ⟨m, hm, List.infix_iff_prefix_suffix.mpr ⟨t, hbegin, (List.mem_tails _ _).mp ht⟩⟩
  · rintro ⟨m, hm, hoccur⟩
    obtain ⟨t, hbegin, hsuffix⟩ := List.infix_iff_prefix_suffix.mp hoccur
    exact ⟨t, (List.mem_tails _ _).mpr hsuffix, (hmatch t).mpr ⟨m, hm, hbegin⟩⟩

/-- A character that every word needs. -/
theorem not_occurs_of_notMem {c : α} (hneeds : ∀ m ∈ L, c ∈ m) (hs : c ∉ s) : ¬ Occurs L s := by
  rintro ⟨m, hm, hoccur⟩
  exact hs (hoccur.subset (hneeds m hm))

theorem prefix_of_prefix_append {q : α} {m a b : List α} (hq : q ∉ m)
    (h : m <+: a ++ q :: b) : m <+: a := by
  cases List.prefix_or_prefix_of_prefix h (List.prefix_append a (q :: b)) with
  | inl hma => exact hma
  | inr ham =>
      obtain ⟨rest, rfl⟩ := ham
      cases rest with
      | nil => simp
      | cons x rest =>
          have hx := (List.prefix_append_right_inj a).mp h
          obtain rfl : x = q := (List.cons_prefix_cons.mp hx).1
          simp at hq

theorem infix_append_separator {q : α} {m : List α} (hq : q ∉ m) (a b : List α) :
    m <:+: a ++ q :: b ↔ m <:+: a ∨ m <:+: b := by
  constructor
  · intro h
    induction a with
    | nil =>
        cases List.infix_cons_iff.mp h with
        | inl hbegin => exact .inl (prefix_of_prefix_append hq hbegin).isInfix
        | inr hb => exact .inr hb
    | cons x rest ih =>
        cases List.infix_cons_iff.mp h with
        | inl hbegin => exact .inl (prefix_of_prefix_append (a := x :: rest) hq hbegin).isInfix
        | inr hrest => exact (ih hrest).imp_left fun hm => List.infix_cons hm
  · rintro (ha | hb)
    · exact ha.trans (List.prefix_append a _).isInfix
    · exact hb.trans ((List.suffix_cons q b).trans (List.suffix_append a _)).isInfix

/-- No word reaches across a character that it cannot contain. -/
theorem occurs_append_separator {q : α} (hq : ∀ m ∈ L, q ∉ m) (a b : List α) :
    Occurs L (a ++ q :: b) ↔ Occurs L a ∨ Occurs L b := by
  constructor
  · rintro ⟨m, hm, hoccur⟩
    exact ((infix_append_separator (hq m hm) a b).mp hoccur).imp (⟨m, hm, ·⟩) (⟨m, hm, ·⟩)
  · rintro (⟨m, hm, hoccur⟩ | ⟨m, hm, hoccur⟩)
    · exact ⟨m, hm, (infix_append_separator (hq m hm) a b).mpr (.inl hoccur)⟩
    · exact ⟨m, hm, (infix_append_separator (hq m hm) a b).mpr (.inr hoccur)⟩

variable [BEq α]

/-- No ending of the fixed text is the beginning of `head`, or begins with it. -/
def apart (head : List α) : List α → Bool
  | [] => true
  | c :: rest =>
      !(c :: rest).isPrefixOf head && !head.isPrefixOf (c :: rest) && apart head rest

/-- A text that is apart from the head of every word hides none of them. -/
theorem occurs_append_apart [LawfulBEq α] {head fixed : List α} (hhead : ∀ m ∈ L, head <+: m)
    (hapart : apart head fixed = true) (free : List α) :
    Occurs L (fixed ++ free) ↔ Occurs L free := by
  constructor
  · rintro ⟨m, hm, hoccur⟩
    refine ⟨m, hm, ?_⟩
    induction fixed with
    | nil => exact hoccur
    | cons c rest ih =>
        simp only [apart, Bool.and_eq_true, Bool.not_eq_true', ← Bool.not_eq_true,
          List.isPrefixOf_iff_prefix] at hapart
        obtain ⟨⟨hcut, hwhole⟩, hrest⟩ := hapart
        cases List.infix_cons_iff.mp hoccur with
        | inl hbegin =>
            have hpre : head <+: (c :: rest) ++ free := (hhead m hm).trans hbegin
            cases List.prefix_or_prefix_of_prefix hpre (List.prefix_append _ free) with
            | inl h => exact absurd h hwhole
            | inr h => exact absurd h hcut
        | inr htail => exact ih hrest htail
  · rintro ⟨m, hm, hoccur⟩
    exact ⟨m, hm, hoccur.trans (List.suffix_append fixed free).isInfix⟩

end Pattern

end A2aItk.Python
