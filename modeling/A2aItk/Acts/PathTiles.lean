import A2aItk.Acts.PathText

/-!
# What the parser accepts, rendered again

An accepted path is tiled by the segments it is read as, with at most a dot before
each. Rendering drops a dot at the front, and with it what kept the whitespace of a
first name from being stripped: only such a path reads differently once rendered.
-/

namespace A2aItk.Acts

open Python Segment

/-- The text is the segments one after the other, with at most a dot before each. -/
inductive Tiles : List Char → List Segment → Prop
  | done : Tiles [] []
  | plain {text after : List Char} {segment : Segment} {rest : List Segment}
      (h : next? text = some (segment, after)) (others : Tiles after rest) :
      Tiles text (segment :: rest)
  | dotted {text after : List Char} {segment : Segment} {rest : List Segment}
      (h : next? text = some (segment, after)) (others : Tiles after rest) :
      Tiles ('.' :: text) (segment :: rest)

section Scan

variable {text after : List Char} {segment : Segment}

theorem close_eq_some {shown read : Segment} {s rest : List Char}
    (h : close shown s = some (read, rest)) :
    read = shown ∧ ∃ inner, s = inner ++ rest := by
  unfold close at h
  split at h
  · rename_i r heq
    cases h
    refine ⟨rfl, s.takeWhile Text.isSpace ++ [']'], ?_⟩
    rw [List.append_assoc, List.singleton_append, ← heq, List.takeWhile_append_dropWhile]
  · cases h

theorem indexed_eq_some {s rest : List Char} (h : indexed s = some (segment, rest)) :
    (∃ position, segment = .index position) ∧ ∃ inner, s = inner ++ rest := by
  have hsuffix : ∀ (digits r : List Char) (n : ℤ),
      close (.index n) (r.drop digits.length) = some (segment, rest) →
      (∃ position, segment = .index position) ∧ ∃ inner, r = inner ++ rest := by
    intro digits r n hclose
    obtain ⟨hsegment, inner, hinner⟩ := close_eq_some hclose
    refine ⟨⟨n, hsegment⟩, r.take digits.length ++ inner, ?_⟩
    rw [List.append_assoc, ← hinner, List.take_append_drop]
  unfold indexed at h
  split at h
  rename_i negative r heq
  dsimp only at h
  split at h
  · obtain ⟨hposition, inner, hinner⟩ := hsuffix _ _ _ h
    refine ⟨hposition, ?_⟩
    split at heq
    · cases heq
      exact ⟨'-' :: inner, by rw [hinner, List.cons_append]⟩
    · cases heq
      exact ⟨inner, hinner⟩
  · cases h

/-- What one match takes from the text: a name, or a bracket. -/
theorem next?_eq_some (h : next? text = some (segment, after)) :
    (∃ name, segment = .key name ∧ NameText name ∧ text = name.toList ++ after) ∨
      (∃ inner, text = '[' :: (inner ++ after) ∧ ∀ name, segment ≠ .key name) := by
  unfold next? at h
  split at h
  · cases h
  · rename_i rest
    right
    have hspaces := List.takeWhile_append_dropWhile (p := Text.isSpace) (l := rest)
    split at h
    · rename_i r heq
      obtain ⟨hsegment, inner, hinner⟩ := close_eq_some h
      refine ⟨rest.takeWhile Text.isSpace ++ '*' :: inner, ?_, by simp [hsegment]⟩
      rw [List.append_assoc, List.cons_append, ← hinner, ← heq, hspaces]
    · obtain ⟨⟨position, hsegment⟩, inner, hinner⟩ := indexed_eq_some h
      refine ⟨rest.takeWhile Text.isSpace ++ inner, ?_, by simp [hsegment]⟩
      rw [List.append_assoc, ← hinner, hspaces]
  · left
    split at h
    · cases h
    · rename_i hne
      cases h
      refine ⟨_, rfl, ⟨?_, ?_⟩, ?_⟩
      · rw [String.toList_ofList]
        exact hne
      · intro c hc
        rw [String.toList_ofList] at hc
        exact List.mem_takeWhile_imp hc
      · rw [String.toList_ofList]
        have hname := List.takeWhile_prefix (l := text) isNameChar
        exact (List.prefix_iff_eq_append.mp hname).symm

end Scan

section Tiling

variable {path : String} {total : ℕ} {text : List Char} {segments : List Segment}

theorem next?_chunk {after : List Char} {segment : Segment}
    (h : next? text = some (segment, after)) :
    segment.Lexical ∧ ∃ chunk, chunk ≠ [] ∧ text = chunk ++ after := by
  rcases next?_eq_some h with ⟨name, rfl, hname, htext⟩ | ⟨inner, htext, hkey⟩
  · exact ⟨hname, name.toList, hname.1, htext⟩
  · refine ⟨?_, '[' :: inner, by simp, htext⟩
    cases segment with
    | key name => exact absurd rfl (hkey name)
    | _ => trivial

/-- A gap of two characters is never closed. -/
theorem parseSegments_gap_ne_ok {gap : List Char} (hgap : 2 ≤ gap.length) :
    parseSegments path total 0 gap text ≠ .ok segments := by
  have hshort : (gap.isEmpty || gap = ['.']) = false := by
    cases gap with
    | nil => simp at hgap
    | cons c rest =>
        cases rest with
        | nil => simp at hgap
        | cons d others => simp
  induction text generalizing gap with
  | nil =>
      have hempty : gap.isEmpty = false := (Bool.or_eq_false_iff.mp hshort).1
      rw [parseSegments, hempty]
      simp
  | cons c rest ih =>
      rw [parseSegments]
      split
      · have hlong : 2 ≤ (gap ++ [c]).length := by
          rw [List.length_append]
          omega
        apply ih hlong
        cases gap with
        | nil => simp at hgap
        | cons d others => cases others <;> simp
      · rw [hshort]
        simp

/-- A match that is accepted follows at most a dot, and the parser goes on behind it. -/
theorem parseSegments_found_eq_ok {gap after : List Char} {segment : Segment}
    (hfound : next? text = some (segment, after))
    (h : parseSegments path total 0 gap text = .ok segments) :
    (gap = [] ∨ gap = ['.']) ∧ after.length < text.length ∧
      ∃ others, segments = segment :: others ∧
        parseSegments path total 0 [] after = .ok others := by
  obtain ⟨-, chunk, hchunk, rfl⟩ := next?_chunk hfound
  have hlength : after.length < (chunk ++ after).length := by
    have := List.length_pos_iff.mpr hchunk
    rw [List.length_append]
    omega
  cases hgap : (gap.isEmpty || gap = ['.'] : Bool) with
  | false =>
      cases chunk with
      | nil => exact absurd rfl hchunk
      | cons c rest =>
          rw [List.cons_append] at h hfound
          rw [parseSegments, hfound] at h
          simp [hgap] at h
  | true =>
      rw [parseSegments_found hchunk hfound hgap] at h
      obtain ⟨others, hothers, hsegments⟩ := bind_eq_ok_iff.mp h
      refine ⟨by simpa using hgap, hlength, others, (Except.ok.inj hsegments).symm, hothers⟩

/-- An accepted text is tiled by its segments. -/
theorem Tiles.of_parseSegments (h : parseSegments path total 0 [] text = .ok segments) :
    Tiles text segments := by
  induction hlen : text.length using Nat.strong_induction_on generalizing text segments with
  | h n ih =>
      subst hlen
      cases text with
      | nil =>
          rw [parseSegments] at h
          cases h
          exact .done
      | cons c rest =>
          cases hfound : next? (c :: rest) with
          | some found =>
              obtain ⟨-, hshort, others, rfl, hothers⟩ := parseSegments_found_eq_ok hfound h
              exact .plain hfound (ih _ hshort hothers rfl)
          | none =>
              rw [parseSegments, hfound, List.nil_append] at h
              cases rest with
              | nil => cases h
              | cons d others =>
                  cases hnext : next? (d :: others) with
                  | none =>
                      rw [parseSegments, hnext] at h
                      exact absurd h (parseSegments_gap_ne_ok le_rfl)
                  | some found =>
                      obtain ⟨hdot, hshort, tiled, rfl, htiled⟩ :=
                        parseSegments_found_eq_ok hnext h
                      obtain rfl : c = '.' := by simpa using hdot
                      have hrest := ih _ (by simp only [List.length_cons] at hshort ⊢; omega)
                        htiled rfl
                      exact .dotted hnext hrest

/-- What the parser reads is spelled by names and brackets. -/
theorem Tiles.lexical (h : Tiles text segments) : ∀ segment ∈ segments, segment.Lexical := by
  induction h with
  | done => simp
  | plain hfound others ih => exact List.forall_mem_cons.mpr ⟨(next?_chunk hfound).1, ih⟩
  | dotted hfound others ih => exact List.forall_mem_cons.mpr ⟨(next?_chunk hfound).1, ih⟩

theorem Tiles.eq_nil (h : Tiles text []) : text = [] := by
  cases h
  rfl

/-- A name at the end of the path ends the text. -/
theorem Tiles.ends (h : Tiles text segments) {name : String}
    (hlast : segments.getLast? = some (.key name)) : name.toList <:+ text := by
  have hlast_of {tiled after : List Char} {segment : Segment} {rest : List Segment}
      (hfound : next? tiled = some (segment, after)) (others : Tiles after rest)
      (ih : rest.getLast? = some (.key name) → name.toList <:+ after)
      (hend : (segment :: rest).getLast? = some (.key name)) : name.toList <:+ tiled := by
    rcases next?_eq_some hfound with ⟨read, rfl, -, htext⟩ | ⟨inner, htext, hkey⟩
    · cases rest with
      | nil =>
          obtain rfl := others.eq_nil
          obtain rfl : read = name := by simpa using hend
          rw [htext, List.append_nil]
      | cons next following =>
          rw [List.getLast?_cons_cons] at hend
          exact (ih hend).trans (htext ▸ List.suffix_append _ _)
    · cases rest with
      | nil =>
          rw [List.getLast?_singleton, Option.some.injEq] at hend
          exact absurd hend (hkey name)
      | cons next following =>
          rw [List.getLast?_cons_cons] at hend
          refine (ih hend).trans ?_
          rw [htext, ← List.cons_append]
          exact List.suffix_append _ _
  induction h with
  | done => cases hlast
  | plain hfound others ih => exact hlast_of hfound others ih hlast
  | dotted hfound others ih =>
      exact (hlast_of hfound others ih hlast).trans (List.suffix_cons _ _)

/-- A name at the start of the path starts the text, perhaps behind a dot. -/
theorem Tiles.starts {name : String} (h : Tiles text (.key name :: segments)) :
    name.toList <+: text ∨ ∃ rest, text = '.' :: rest ∧ name.toList <+: rest := by
  have hname {tiled after : List Char} (hfound : next? tiled = some (.key name, after)) :
      name.toList <+: tiled := by
    rcases next?_eq_some hfound with ⟨read, hread, -, htext⟩ | ⟨inner, htext, hkey⟩
    · cases hread
      exact htext ▸ List.prefix_append _ _
    · exact absurd rfl (hkey name)
  cases h with
  | plain hfound others => exact .inl (hname hfound)
  | dotted hfound others => exact .inr ⟨_, rfl, hname hfound⟩

end Tiling

section Normalised

variable {path : String} {segments : List Segment}

/-- The path starts with a dot and whitespace, which then is part of its first name. -/
def opensBlank (path : String) : Bool :=
  match Text.strip path.toList with
  | '.' :: c :: _ => Text.isSpace c
  | _ => false

theorem opensBlank_of_strip {c : Char} {rest : List Char}
    (h : Text.strip path.toList = '.' :: c :: rest) : opensBlank path = Text.isSpace c := by
  simp only [opensBlank, h]

theorem Tiles.of_parsePath (h : parsePath path = .ok segments) :
    Tiles (Text.strip path.toList) segments := .of_parseSegments h

/-- The last name of an accepted path has no whitespace at its end. -/
theorem endsFull_of_parsePath (h : parsePath path = .ok segments) :
    ∀ segment ∈ segments.getLast?, segment.EndsFull := by
  intro segment hsegment
  cases segment with
  | key name =>
      intro c hc
      obtain ⟨front, hfront⟩ := (Tiles.of_parsePath h).ends hsegment
      apply getLast?_strip path.toList
      rw [← hfront, List.getLast?_append, Option.mem_def.mp hc]
      rfl
  | _ => trivial

/-- Nor has the first one at its start, without a dot in front of it. -/
theorem head_of_parsePath (h : parsePath path = .ok segments) (hblank : opensBlank path = false)
    (name : String) (hfirst : segments.head? = some (.key name)) :
    ∀ c ∈ name.toList.head?, Text.isSpace c = false := by
  intro c hc
  obtain ⟨others, rfl⟩ := List.head?_eq_some_iff.mp hfirst
  rcases (Tiles.of_parsePath h).starts with ⟨rest, hrest⟩ | ⟨text, htext, rest, hrest⟩
  · apply head?_strip path.toList
    rw [← hrest, List.head?_append, Option.mem_def.mp hc]
    rfl
  · cases hname : name.toList with
    | nil =>
        rw [hname] at hc
        cases hc
    | cons d chars =>
        rw [hname] at hc hrest
        cases hc
        rw [← hrest, List.cons_append] at htext
        rwa [opensBlank_of_strip htext] at hblank

theorem not_isSpace_of_not_isNameChar {c : Char} (h : isNameChar c = false) :
    Text.isSpace c = false := by
  have hc : c = '.' ∨ c = '[' ∨ c = ']' := by
    simp only [isNameChar, Bool.and_eq_false_iff, decide_eq_false_iff_not, not_not] at h
    tauto
  rcases hc with rfl | rfl | rfl <;> rfl

/-- A first name that starts with whitespace is not read back from the rendered path. -/
theorem parsePath_formatPath_ne {name : String} {rest : List Segment} {c : Char}
    (hlexical : ∀ segment ∈ Segment.key name :: rest, segment.Lexical)
    (hlast : ∀ segment ∈ (Segment.key name :: rest).getLast?, segment.EndsFull)
    (hc : name.toList.head? = some c) (hspace : Text.isSpace c = true) :
    parsePath (formatPath (.key name :: rest)) ≠ .ok (.key name :: rest) := by
  intro h
  have hname : NameText name := hlexical (.key name) (by simp)
  have hstrip : Text.strip (formatPath (.key name :: rest)).toList =
      (name.toList ++ rest.flatMap Segment.tail).dropWhile Text.isSpace := by
    rw [toList_formatPath hlexical]
    exact strip_eq_dropWhile (getLast_render hlexical hlast)
  rw [List.dropWhile_append] at hstrip
  cases hdrop : name.toList.dropWhile Text.isSpace with
  | nil =>
      -- the whole name is stripped, so that only the other segments are left
      have htails : (rest.flatMap Segment.tail).dropWhile Text.isSpace =
          rest.flatMap Segment.tail :=
        Text.dropWhile_eq_self fun d hd => not_isSpace_of_not_isNameChar (head_tails rest d hd)
      rw [hdrop, List.isEmpty_nil, if_pos rfl, htails] at hstrip
      rw [parsePath, hstrip, parseSegments_tails fun s hs => hlexical s (by simp [hs])] at h
      exact List.cons_ne_self _ _ (Except.ok.inj h).symm
  | cons d others =>
      -- the text starts inside the name, where its whitespace is not
      have hspace' : Text.isSpace d = false :=
        not_isSpace_head?_dropWhile name.toList d (by rw [hdrop]; rfl)
      rw [hdrop, List.isEmpty_cons, if_neg Bool.false_ne_true] at hstrip
      have hstart := (Tiles.of_parsePath h).starts
      rw [hstrip] at hstart
      cases hchars : name.toList with
      | nil => exact hname.1 hchars
      | cons first chars =>
          rw [hchars] at hstart hc
          cases hc
          rcases hstart with ⟨after, hafter⟩ | ⟨text, htext, -⟩
          · obtain rfl : c = d := (List.cons.inj hafter).1
            exact absurd hspace (by simp [hspace'])
          · obtain rfl : d = '.' := (List.cons.inj htext).1
            have hmem : '.' ∈ name.toList :=
              (List.dropWhile_sublist _).subset (hdrop ▸ List.mem_cons_self)
            exact absurd (hname.2 '.' hmem) (by decide)

/-- Rendering an accepted path and reading it again gives the same segments, unless the
path starts with a dot and whitespace. -/
theorem parsePath_formatPath_iff (h : parsePath path = .ok segments) :
    parsePath (formatPath segments) = .ok segments ↔ opensBlank path = false := by
  have hlexical := (Tiles.of_parsePath h).lexical
  have hlast := endsFull_of_parsePath h
  constructor
  · intro hround
    rw [Bool.eq_false_iff]
    intro hblank
    unfold opensBlank at hblank
    split at hblank
    · rename_i c rest htext
      have htiles := Tiles.of_parsePath h
      rw [htext] at htiles
      cases htiles with
      | plain hfound _ => rw [next?_dot] at hfound; cases hfound
      | dotted hfound others =>
          rcases next?_eq_some hfound with ⟨name, rfl, hname, hchars⟩ | ⟨inner, hchars, -⟩
          · refine parsePath_formatPath_ne hlexical hlast ?_ hblank hround
            cases hn : name.toList with
            | nil => exact absurd hn hname.1
            | cons d chars =>
                rw [hn, List.cons_append] at hchars
                rw [(List.cons.inj hchars).1]
                rfl
          · obtain rfl : c = '[' := (List.cons.inj hchars).1
            exact absurd hblank (by decide)
    · cases hblank
  · intro hblank
    exact parsePath_formatPath_of_ends hlexical (head_of_parsePath h hblank) hlast

/-- Segments that are spelled alike everywhere survive rendering, and so does every
accepted path that does not start with a dot and whitespace. -/
theorem paths_round_trip_iff (path : String) (segments : List Segment) :
    ((∀ segment ∈ segments, segment.Spelled) →
      parsePath (formatPath segments) = .ok segments) ∧
    (parsePath path = .ok segments →
      (parsePath (formatPath segments) = .ok segments ↔ opensBlank path = false)) :=
  ⟨fun hspelled => parsePath_formatPath_of_spelled hspelled,
    fun h => parsePath_formatPath_iff h⟩

theorem paths_round_trip_tasks :
    parsePath (formatPath [.index (-1), .key "a"]) = .ok [.index (-1), .key "a"] ∧
      parsePath (formatPath [.key "tasks", .index 0, .wildcard]) =
        .ok [.key "tasks", .index 0, .wildcard] := by
  constructor
  · apply (paths_round_trip_iff "" _).1
    simp only [List.forall_mem_cons, Segment.Spelled, true_and]
    exact ⟨⟨by decide, List.all_eq_true.mp (by decide), by decide⟩, by simp⟩
  · exact ((paths_round_trip_iff " .tasks[ 0][ * ] " _).2 rfl).mpr rfl

theorem blank_name_is_stripped :
    ¬∀ (path : String) (segments : List Segment), parsePath path = .ok segments →
      parsePath (formatPath segments) = .ok segments := by
  intro h
  have hround : parsePath " b" = .ok [.key " b"] := h ". b" [.key " b"] rfl
  have hread : parsePath " b" = .ok [.key "b"] := rfl
  rw [hread] at hround
  exact absurd hround (by simp)

end Normalised

end A2aItk.Acts
