import A2aItk.Python.Text

/-!
# Texts as JSON

`JSON.stringify` of a list of texts, and that it tells the texts.
-/

namespace A2aItk.Dashboard

open Python

/-- One character inside a JSON text. -/
def escape (c : Char) : List Char :=
  if c = '"' then ['\\', '"']
  else if c = '\\' then ['\\', '\\']
  else if c = '\n' then ['\\', 'n']
  else if c = '\r' then ['\\', 'r']
  else if c = '\t' then ['\\', 't']
  else if c.toNat = 8 then ['\\', 'b']
  else if c.toNat = 12 then ['\\', 'f']
  else if c.toNat < 32 then
    ['\\', 'u', '0', '0', Text.hexDigit (c.toNat / 16), Text.hexDigit (c.toNat % 16)]
  else [c]

def quote (s : String) : List Char := '"' :: s.toList.flatMap escape ++ ['"']

/-- `JSON.stringify(texts)`. -/
def stringify (texts : List String) : String :=
  String.ofList ('[' :: [','].intercalate (texts.map quote) ++ [']'])

section Reading

def hexValue (c : Char) : ℕ := if c.toNat < 58 then c.toNat - 48 else c.toNat - 87

/-- The first character of an escaped text, and what follows it. -/
def unescape : List Char → Option (Char × List Char)
  | '\\' :: 'u' :: '0' :: '0' :: high :: low :: rest =>
      some (Char.ofNat (16 * hexValue high + hexValue low), rest)
  | '\\' :: 'n' :: rest => some ('\n', rest)
  | '\\' :: 'r' :: rest => some ('\r', rest)
  | '\\' :: 't' :: rest => some ('\t', rest)
  | '\\' :: 'b' :: rest => some (Char.ofNat 8, rest)
  | '\\' :: 'f' :: rest => some (Char.ofNat 12, rest)
  | '\\' :: c :: rest => some (c, rest)
  | c :: rest => some (c, rest)
  | [] => none

theorem hexValue_hexDigit : ∀ n < 16, hexValue (Text.hexDigit n) = n := by
  decide

theorem unescape_escape (c : Char) (rest : List Char) :
    unescape (escape c ++ rest) = some (c, rest) := by
  have hnat : ∀ {n : ℕ}, c.toNat = n → Char.ofNat n = c := by
    rintro n rfl
    exact Char.ofNat_toNat c
  unfold escape
  split_ifs with hquote hback hline hreturn htab hbell hfeed hcontrol
  · subst hquote
    rfl
  · subst hback
    rfl
  · subst hline
    rfl
  · subst hreturn
    rfl
  · subst htab
    rfl
  · exact congrArg some (congrArg (·, rest) (hnat hbell))
  · exact congrArg some (congrArg (·, rest) (hnat hfeed))
  · have hvalue : c.toNat = 16 * hexValue (Text.hexDigit (c.toNat / 16)) +
        hexValue (Text.hexDigit (c.toNat % 16)) := by
      rw [hexValue_hexDigit _ (by omega), hexValue_hexDigit _ (by omega)]
      omega
    exact congrArg some (congrArg (·, rest) (hnat hvalue))
  · simp [unescape, hback]

theorem escape_append_inj {c d : Char} {x y : List Char} (h : escape c ++ x = escape d ++ y) :
    c = d ∧ x = y := by
  have hread := (unescape_escape c x).symm.trans (h ▸ unescape_escape d y)
  exact Prod.mk.inj (Option.some.inj hread)

/-- No character is written as the closing quote. -/
theorem quote_cons_ne (c : Char) (x y : List Char) : '"' :: x ≠ escape c ++ y := by
  intro h
  have hread : unescape ('"' :: x) = some (c, y) := h ▸ unescape_escape c y
  obtain ⟨rfl, -⟩ : '"' = c ∧ x = y := Prod.mk.inj (Option.some.inj hread)
  exact absurd (List.cons.inj h).1 (by decide)

theorem flatMap_escape_inj {s t x y : List Char}
    (h : s.flatMap escape ++ '"' :: x = t.flatMap escape ++ '"' :: y) : s = t ∧ x = y := by
  induction s generalizing t with
  | nil =>
      cases t with
      | nil => exact ⟨rfl, (List.cons.inj h).2⟩
      | cons d rest' =>
          rw [List.flatMap_cons, List.append_assoc] at h
          exact absurd h (quote_cons_ne d _ _)
  | cons c rest ih =>
      cases t with
      | nil =>
          rw [List.flatMap_cons, List.append_assoc] at h
          exact absurd h.symm (quote_cons_ne c _ _)
      | cons d rest' =>
          rw [List.flatMap_cons, List.flatMap_cons, List.append_assoc, List.append_assoc] at h
          obtain ⟨rfl, hrest⟩ := escape_append_inj h
          obtain ⟨rfl, hxy⟩ := ih hrest
          exact ⟨rfl, hxy⟩

theorem quote_append_inj {s t : String} {x y : List Char} (h : quote s ++ x = quote t ++ y) :
    s = t ∧ x = y := by
  simp only [quote, List.cons_append, List.append_assoc, List.nil_append, List.cons.injEq,
    true_and] at h
  obtain ⟨hst, hxy⟩ := flatMap_escape_inj h
  exact ⟨String.toList_inj.mp hst, hxy⟩

/-- As many texts that are written the same are the same. -/
theorem stringify_inj {texts texts' : List String} (hlen : texts.length = texts'.length)
    (h : stringify texts = stringify texts') : texts = texts' := by
  have hbody : [','].intercalate (texts.map quote) ++ [']'] =
      [','].intercalate (texts'.map quote) ++ [']'] :=
    (List.cons.inj (String.ofList_injective h)).2
  clear h
  induction texts generalizing texts' with
  | nil => exact (List.length_eq_zero_iff.mp hlen.symm).symm
  | cons a rest ih =>
      cases texts' with
      | nil => cases hlen
      | cons a' rest' =>
          have hrest : rest.length = rest'.length := Nat.succ.inj hlen
          cases rest with
          | nil =>
              obtain rfl : rest' = [] := List.length_eq_zero_iff.mp hrest.symm
              rw [List.map_singleton, List.map_singleton, List.intercalate_singleton,
                List.intercalate_singleton] at hbody
              rw [(quote_append_inj hbody).1]
          | cons b others =>
              cases rest' with
              | nil => cases hrest
              | cons b' others' =>
                  rw [List.map_cons, List.map_cons, List.map_cons, List.map_cons,
                    List.intercalate_cons_cons, List.intercalate_cons_cons, List.append_assoc,
                    List.append_assoc, List.append_assoc, List.append_assoc] at hbody
                  obtain ⟨rfl, htail⟩ := quote_append_inj hbody
                  rw [ih hrest (List.append_cancel_left htail)]

end Reading

end A2aItk.Dashboard
