import A2aItk.Acts.Scope

/-!
# References a substitution leaves behind

The references of a text, found by a machine that reads one character at a time,
and when a substitution that succeeds has none left. Values are written in as they
are, so what counts is what a value brings along and what the text around it makes
of it.

## Implementation notes

`references` is a set in the source; here it is the list of what is found.
-/

namespace A2aItk.Acts

open Python

section References

/-- The name in a piece that is a reference. -/
def Piece.name? : Piece → Option String
  | .char _ => none
  | .reference body => some (String.ofList (Text.strip body))

/-- The references in one text. -/
def referencesOf (text : String) : List String := (pieces text).filterMap Piece.name?

mutual

/-- Every reference in a structure, unresolved. -/
def references : Value → List String
  | .scalar (.str text) => referencesOf text
  | .scalar _ => []
  | .list items => referencesItems items
  | .dict entries => referencesEntries entries

/-- Those in the items of a list. -/
def referencesItems : List Value → List String
  | [] => []
  | v :: rest => references v ++ referencesItems rest

/-- Those in the entries of a mapping; keys have none. -/
def referencesEntries : List (Scalar × Value) → List String
  | [] => []
  | (_, v) :: rest => references v ++ referencesEntries rest

end

/-- Some string of the structure holds a reference. -/
def mentions (v : Value) : Bool := !(references v).isEmpty

end References

/-- How much of a reference has been read: nothing, one brace, two or more, a body
behind them, the first closing brace, or all of it. -/
inductive Scan
  | outside
  | brace
  | opened
  | body
  | closing
  | found
  deriving DecidableEq

namespace Scan

/-- Read an opening brace. -/
def enter : Scan → Scan
  | found => found
  | brace | opened => opened
  | outside | body | closing => brace

/-- Read a closing brace. -/
def close : Scan → Scan
  | found | closing => found
  | body => closing
  | outside | brace | opened => outside

/-- Read any other character. -/
def other : Scan → Scan
  | found => found
  | opened | body => body
  | outside | brace | closing => outside

/-- The state of the scan after one more character. -/
def step (state : Scan) (c : Char) : Scan :=
  if c = '\x7b' then state.enter else if c = '\x7d' then state.close else state.other

/-- The state of the scan at the end of a text. -/
def run (state : Scan) (text : List Char) : Scan := text.foldl step state

/-- A reference is complete at the end of the text. -/
def finds (state : Scan) (text : List Char) : Bool := run state text = found

/-- At the end of a text the scan stays. -/
@[simp] theorem run_nil (state : Scan) : run state [] = state := rfl

/-- A scan reads one character, then the rest. -/
@[simp] theorem run_cons (state : Scan) (c : Char) (rest : List Char) :
    run state (c :: rest) = run (state.step c) rest := rfl

/-- A text is read in two parts. -/
theorem run_append (state : Scan) (a b : List Char) :
    run state (a ++ b) = run (run state a) b := by
  simp [run]

/-- A character that is no brace. -/
theorem step_of_plain (state : Scan) {c : Char} (hc : c ≠ '\x7b' ∧ c ≠ '\x7d') :
    state.step c = state.other := by
  rw [step, if_neg hc.1, if_neg hc.2]

/-- A reference that was found stays found. -/
@[simp] theorem run_found (text : List Char) : run found text = found := by
  induction text with
  | nil => rfl
  | cons c rest ih =>
      have hstep : found.step c = found := by
        unfold step
        split
        · rfl
        · split <;> rfl
      rw [run_cons, hstep, ih]

/-- A text without braces that is not empty reads like one character. -/
theorem run_of_plain (state : Scan) {text : List Char} (hne : text ≠ [])
    (hplain : ∀ c ∈ text, c ≠ '\x7b' ∧ c ≠ '\x7d') : run state text = state.other := by
  have htwice : state.other.other = state.other := by
    cases state <;> rfl
  induction text with
  | nil => exact absurd rfl hne
  | cons c rest ih =>
      rw [run_cons, step_of_plain state (hplain c (by simp))]
      cases rest with
      | nil => rfl
      | cons d others =>
          have hd := hplain d (by simp)
          rw [run_cons, step_of_plain _ hd, htwice]
          have hrest := ih (by simp) fun e he => hplain e (by simp [he])
          rwa [run_cons, step_of_plain _ hd] at hrest

end Scan

section Machine

/-- The text goes on with the rest of a body and two closing braces. -/
def closesBody : List Char → Bool
  | [] => false
  | c :: rest =>
      if c = '\x7b' then false
      else if c = '\x7d' then rest.head? = some '\x7d'
      else closesBody rest

/-- The text goes on with a body and two closing braces. -/
def closes : List Char → Bool
  | [] => false
  | c :: rest => if c = '\x7b' || c = '\x7d' then false else closesBody rest

/-- The three ways to read the first character of a text. -/
theorem finds_cons (state : Scan) (c : Char) (rest : List Char) :
    state.finds (c :: rest) =
      if c = '\x7b' then state.enter.finds rest
      else if c = '\x7d' then state.close.finds rest
      else state.other.finds rest := by
  unfold Scan.finds
  rw [Scan.run_cons, Scan.step]
  split
  · rfl
  · split <;> rfl

/-- After one closing brace, another one ends a reference. -/
theorem finds_closing (s : List Char) :
    Scan.closing.finds s = (decide (s.head? = some '\x7d') || Scan.outside.finds s) := by
  cases s with
  | nil => rfl
  | cons c rest =>
      rw [finds_cons, finds_cons]
      by_cases hopen : c = '\x7b'
      · subst hopen
        rfl
      · by_cases hclose : c = '\x7d'
        · subst hclose
          simp [Scan.finds, Scan.close]
        · simp [hopen, hclose, Scan.other]

/-- Within a body, a reference is found where the body closes, or further on. -/
theorem finds_body (s : List Char) :
    Scan.body.finds s = (closesBody s || Scan.outside.finds s) := by
  induction s with
  | nil => rfl
  | cons c rest ih =>
      rw [finds_cons, finds_cons, closesBody]
      by_cases hopen : c = '\x7b'
      · simp [hopen, Scan.enter]
      · by_cases hclose : c = '\x7d'
        · subst hclose
          exact finds_closing rest
        · simpa only [if_neg hopen, if_neg hclose, Scan.other] using ih

/-- After two opening braces, one is found where they close, or further on. -/
theorem finds_opened (s : List Char) :
    Scan.opened.finds s = (closes s || Scan.brace.finds s) := by
  cases s with
  | nil => rfl
  | cons c rest =>
      rw [finds_cons, finds_cons, closes]
      by_cases hopen : c = '\x7b'
      · simp [hopen, Scan.enter]
      · by_cases hclose : c = '\x7d'
        · simp [hclose, Scan.close]
        · simpa [hopen, hclose, Scan.other] using finds_body rest

/-- What a body is made of. -/
def isBodyChar (c : Char) : Bool := c ≠ '\x7b' && c ≠ '\x7d'

/-- A body is closed by two braces behind its last character. -/
theorem closesBody_eq (s : List Char) :
    closesBody s = ['\x7d', '\x7d'].isPrefixOf (s.drop (s.takeWhile isBodyChar).length) := by
  induction s with
  | nil => rfl
  | cons c rest ih =>
      rw [closesBody]
      by_cases hopen : c = '\x7b'
      · simp [hopen, isBodyChar, List.isPrefixOf]
      · by_cases hclose : c = '\x7d'
        · cases rest <;> simp [hclose, isBodyChar, List.isPrefixOf, Bool.beq_eq_decide_eq, eq_comm]
        · simpa [hopen, hclose, isBodyChar] using ih

/-- A reference is one that closes. -/
theorem isSome_reference? (s : List Char) :
    (reference? ('\x7b' :: '\x7b' :: s)).isSome = closes s := by
  cases s with
  | nil => rfl
  | cons c rest =>
      have hbody : (fun c : Char => decide (c ≠ '\x7b') && decide (c ≠ '\x7d')) =
          isBodyChar := rfl
      rw [reference?, hbody]
      by_cases hc : isBodyChar c = true
      · have hne : ¬(c = '\x7b' || c = '\x7d') = true := by
          simpa [isBodyChar] using hc
        rw [List.takeWhile_cons_of_pos hc, closes, if_neg hne, closesBody_eq, List.length_cons,
          List.drop_succ_cons]
        split
        · rename_i heq hdrop
          simp [hdrop, List.isPrefixOf]
        · rename_i hno
          symm
          apply Bool.eq_false_iff.mpr
          intro hprefix
          obtain ⟨others, hothers⟩ := List.isPrefixOf_iff_prefix.mp hprefix
          exact hno _ _ others rfl hothers.symm
      · have heq : (c = '\x7b' || c = '\x7d') = true := by
          by_cases hopen : c = '\x7b' <;> simp_all [isBodyChar]
        rw [List.takeWhile_cons_of_neg hc, closes, if_pos heq]
        rfl

/-- A reference begins with two braces. -/
theorem exists_of_reference? {s body : List Char} (h : reference? s = some body) :
    ∃ rest, s = '\x7b' :: '\x7b' :: rest := by
  unfold reference? at h
  split at h
  · exact ⟨_, rfl⟩
  · cases h

/-- A character that starts no reference changes nothing. -/
theorem finds_of_reference?_eq_none {c : Char} {rest : List Char}
    (h : reference? (c :: rest) = none) :
    Scan.outside.finds (c :: rest) = Scan.outside.finds rest := by
  rw [finds_cons]
  by_cases hopen : c = '\x7b'
  · subst hopen
    rw [if_pos rfl]
    cases rest with
    | nil => rfl
    | cons d others =>
        rw [finds_cons, finds_cons]
        by_cases hd : d = '\x7b'
        · subst hd
          have hcloses := isSome_reference? others
          have hopened := finds_opened others
          rw [← hcloses, h] at hopened
          rw [if_pos rfl, if_pos rfl]
          exact hopened
        · simp only [if_neg hd]
          rfl
  · rw [if_neg hopen]
    split <;> rfl

/-- Whether a text holds a reference is decided by the machine. -/
theorem any_piecesGo (s : List Char) :
    ((piecesGo 0 s).any fun piece => piece.name?.isSome) = Scan.outside.finds s := by
  induction s with
  | nil => rfl
  | cons c rest ih =>
      rw [piecesGo]
      cases hreference : reference? (c :: rest) with
      | some body =>
          obtain ⟨others, hothers⟩ := exists_of_reference? hreference
          have hcloses := isSome_reference? others
          rw [← hothers, hreference] at hcloses
          have hopened := finds_opened others
          rw [← hcloses] at hopened
          have hstart : Scan.outside.finds ('\x7b' :: '\x7b' :: others) =
              Scan.opened.finds others := rfl
          rw [hothers, hstart, hopened]
          simp [Piece.name?]
      | none =>
          rw [finds_of_reference?_eq_none hreference, ← ih]
          rfl

end Machine

section Leaves

variable (py : Interpreter)

/-- The reference draws a fresh identifier. -/
def isUuid (reference : List Char) : Bool := String.ofList (Text.strip reference) = "$uuid"

namespace Scope

/-- The value a reference stands for, other than a fresh identifier. -/
def lookup? (scope : Scope) (reference : List Char) : Option Value :=
  let ref := String.ofList (Text.strip reference)
  if '.' ∈ ref.toList then
    let parts := Text.partition ['.'] ref.toList
    let head := String.ofList parts.1
    let tail := String.ofList parts.2.2
    ((scope.capturesOf head).get? tail).or
      ((scope.vars.get? ref).or (if head = "env" then (scope.env tail).map .str else none))
  else scope.vars.get? ref

/-- Read one piece of a text, a reference as the text of its value. -/
def scanPiece (scope : Scope) (state : Scan) : Piece → Scan
  | .char c => state.step c
  | .reference body =>
      if isUuid body then state.other
      else
        match scope.lookup? body with
        | some v => state.run (v.text py).toList
        | none => state

/-- The text and the values in it make up a reference. -/
def assembles (scope : Scope) (parts : List Piece) : Bool :=
  parts.foldl (scope.scanPiece py) .outside = .found

/-- What replaces the text holds a reference: the value itself where the text is
nothing but a reference. -/
def leavesText (scope : Scope) (text : String) : Bool :=
  match pieces text with
  | [.reference body] => !isUuid body && (scope.lookup? body).any mentions
  | parts => scope.assembles py parts

mutual

/-- Substitution leaves a reference somewhere in the structure. -/
def leaves (scope : Scope) : Value → Bool
  | .scalar (.str text) => scope.leavesText py text
  | .scalar _ => false
  | .list items => leavesItems scope items
  | .dict entries => leavesEntries scope entries

/-- What is left in the items of a list. -/
def leavesItems (scope : Scope) : List Value → Bool
  | [] => false
  | v :: rest => leaves scope v || leavesItems scope rest

/-- What is left in the entries of a mapping. -/
def leavesEntries (scope : Scope) : List (Scalar × Value) → Bool
  | [] => false
  | (_, v) :: rest => leaves scope v || leavesEntries scope rest

end

end Scope

end Leaves

section Substitution

/-- A fresh identifier is a text without braces, and not empty. -/
def PlainUuids {σ : Type} (newUuid : σ → String × σ) : Prop :=
  ∀ s, (newUuid s).1.toList ≠ [] ∧ ∀ c ∈ (newUuid s).1.toList, c ≠ '\x7b' ∧ c ≠ '\x7d'

variable {py : Interpreter} {σ : Type} {newUuid : σ → String × σ} {scope : Scope} {s s' : σ}

/-- A text mentions a reference if the scan finds one. -/
theorem mentions_str (text : String) :
    mentions (.str text) = Scan.outside.finds text.toList := by
  rw [← any_piecesGo]
  change (!((pieces text).filterMap Piece.name?).isEmpty) = (pieces text).any _
  induction pieces text with
  | nil => rfl
  | cons piece rest ih =>
      cases hname : piece.name? with
      | none => simpa [hname] using ih
      | some name => simp [hname]

/-- A list does if its head or its tail does. -/
theorem mentions_cons (v : Value) (rest : List Value) :
    (!(referencesItems (v :: rest)).isEmpty) =
      (mentions v || !(referencesItems rest).isEmpty) := by
  rw [referencesItems, mentions]
  cases references v <;> simp

/-- `$uuid` draws a fresh identifier, whatever the scope. -/
theorem resolve_of_isUuid {reference : List Char} (h : isUuid reference = true) :
    scope.resolve py newUuid reference = .str <$> Effects.update newUuid := by
  have href : String.ofList (Text.strip reference) = "$uuid" := by simpa [isUuid] using h
  exact if_pos href

/-- A reference to no fresh identifier stands for a value or cannot be resolved. -/
theorem resolve_of_not_isUuid {reference : List Char} (h : isUuid reference = false) :
    (∃ v, scope.lookup? reference = some v ∧ scope.resolve py newUuid reference = pure v) ∨
      scope.lookup? reference = none ∧ ∃ message,
        scope.resolve py newUuid reference = throw (.unresolvedVariable message) := by
  have hne : ¬String.ofList (Text.strip reference) = "$uuid" := by simpa [isUuid] using h
  unfold Scope.resolve Scope.lookup?
  dsimp only
  rw [if_neg hne]
  generalize String.ofList (Text.strip reference) = ref
  generalize String.ofList (Text.partition ['.'] ref.toList).1 = head
  generalize String.ofList (Text.partition ['.'] ref.toList).2.2 = tail
  by_cases hdot : '.' ∈ ref.toList
  · rw [if_pos hdot, if_pos hdot]
    cases (scope.capturesOf head).get? tail with
    | some value => exact .inl ⟨value, rfl, rfl⟩
    | none =>
        cases scope.vars.get? ref with
        | some value => exact .inl ⟨value, rfl, rfl⟩
        | none =>
            by_cases henv : head = "env"
            · rw [if_pos henv]
              simp only [if_pos henv]
              cases scope.env tail with
              | some value => exact .inl ⟨.str value, rfl, rfl⟩
              | none => exact .inr ⟨rfl, _, rfl⟩
            · simp only [if_neg henv]
              split <;> exact .inr ⟨rfl, _, rfl⟩
  · rw [if_neg hdot, if_neg hdot]
    cases scope.vars.get? ref with
    | some value => exact .inl ⟨value, rfl, rfl⟩
    | none => exact .inr ⟨rfl, _, rfl⟩

/-- What a reference resolves to: a fresh identifier, or the value it stands for. -/
theorem resolve_eq_ok {reference : List Char} {v : Value}
    (h : scope.resolve py newUuid reference s = .ok v s') :
    (isUuid reference = true ∧ v = .str (newUuid s).1) ∨
      (isUuid reference = false ∧ scope.lookup? reference = some v) := by
  cases huuid : isUuid reference with
  | true =>
      rw [resolve_of_isUuid huuid] at h
      change EStateM.Result.ok (Value.str (newUuid s).1) (newUuid s).2 = _ at h
      cases h
      exact .inl ⟨rfl, rfl⟩
  | false =>
      right
      cases resolve_of_not_isUuid huuid with
      | inl hvalue =>
          obtain ⟨value, hlookup, hresolve⟩ := hvalue
          rw [hresolve] at h
          cases h
          exact ⟨rfl, hlookup⟩
      | inr herror =>
          obtain ⟨-, message, hresolve⟩ := herror
          rw [hresolve] at h
          cases h

/-- A text that is one reference becomes its value. -/
theorem substituteText_of_reference {text : String} {body : List Char}
    (h : pieces text = [.reference body]) :
    scope.substituteText py newUuid text = scope.resolve py newUuid body := by
  simp only [Scope.substituteText, h]

/-- Any other is put together from its pieces. -/
theorem substituteText_of_ne {text : String} (h : ∀ body, pieces text ≠ [.reference body]) :
    scope.substituteText py newUuid text =
      (do
        let chars ← scope.interpolate py newUuid (pieces text)
        pure (.str (String.ofList chars))) := by
  unfold Scope.substituteText
  split
  · rename_i body hpieces
    exact absurd hpieces (h body)
  · rfl

variable (huuid : PlainUuids newUuid)

include huuid in
/-- One reference, written into a text. -/
theorem run_resolve {reference : List Char} {v : Value}
    (h : scope.resolve py newUuid reference s = .ok v s') (state : Scan) :
    state.run (v.text py).toList = scope.scanPiece py state (.reference reference) := by
  unfold Scope.scanPiece
  dsimp only
  cases resolve_eq_ok h with
  | inl hfresh =>
      rw [if_pos hfresh.1, hfresh.2]
      exact state.run_of_plain (huuid s).1 (huuid s).2
  | inr hlookup =>
      rw [if_neg (by simp [hlookup.1]), hlookup.2]

include huuid in
/-- The scan of the result is that of its pieces, by induction on them. -/
theorem run_interpolate {parts : List Piece} {text : List Char}
    (h : scope.interpolate py newUuid parts s = .ok text s') (state : Scan) :
    state.run text = parts.foldl (scope.scanPiece py) state := by
  induction parts generalizing s text state with
  | nil =>
      cases h
      rfl
  | cons piece rest ih =>
      cases piece with
      | char c =>
          obtain ⟨others, t, hothers, h⟩ := Effects.bind_eq_ok_iff.mp h
          cases h
          exact ih hothers (state.step c)
      | reference body =>
          obtain ⟨v, t, hv, h⟩ := Effects.bind_eq_ok_iff.mp h
          obtain ⟨others, u, hothers, h⟩ := Effects.bind_eq_ok_iff.mp h
          cases h
          rw [Scan.run_append, run_resolve huuid hv, ih hothers]
          rfl

include huuid in
/-- A text that was substituted mentions a reference if the scan of its pieces finds one. -/
theorem mentions_substituteText {text : String} {v : Value}
    (h : scope.substituteText py newUuid text s = .ok v s') :
    mentions v = scope.leavesText py text := by
  by_cases hwhole : ∃ body, pieces text = [.reference body]
  · obtain ⟨body, hpieces⟩ := hwhole
    rw [substituteText_of_reference hpieces] at h
    simp only [Scope.leavesText, hpieces]
    cases resolve_eq_ok h with
    | inl hfresh =>
        rw [hfresh.1, hfresh.2, mentions_str, Scan.finds,
          Scan.run_of_plain _ (huuid s).1 (huuid s).2]
        rfl
    | inr hlookup => rw [hlookup.1, hlookup.2, Option.any_some, Bool.not_false, Bool.true_and]
  · have hnot : ∀ body, pieces text ≠ [.reference body] := not_exists.mp hwhole
    have hleaves : scope.leavesText py text = scope.assembles py (pieces text) := by
      unfold Scope.leavesText
      split
      · rename_i body hpieces
        exact absurd hpieces (hnot body)
      · rfl
    rw [substituteText_of_ne hnot] at h
    obtain ⟨chars, t, hchars, h⟩ := Effects.bind_eq_ok_iff.mp h
    cases h
    rw [hleaves, mentions_str, String.toList_ofList, Scan.finds, run_interpolate huuid hchars]
    rfl

omit huuid in
/-- A mapping mentions what its values do. -/
theorem mentions_entries (key : Scalar) (v : Value) (rest : List (Scalar × Value)) :
    (!(referencesEntries ((key, v) :: rest)).isEmpty) =
      (mentions v || !(referencesEntries rest).isEmpty) := by
  rw [referencesEntries, mentions]
  cases references v <;> simp

mutual

/-- What a substitution leaves behind is what the readings of the texts say. -/
theorem mentions_substitute (huuid : PlainUuids newUuid) : ∀ (node : Value) (s s' : σ) (v : Value),
    scope.substitute py newUuid node s = .ok v s' → mentions v = scope.leaves py node
  | .scalar scalar, s, s', v, h => by
      cases scalar with
      | str text => exact mentions_substituteText huuid h
      | _ =>
          cases h
          rfl
  | .list items, s, s', v, h => by
      obtain ⟨vs, hvs, rfl⟩ := Effects.map_eq_ok_iff.mp h
      exact mentions_substituteItems huuid items s s' vs hvs
  | .dict entries, s, s', v, h => by
      obtain ⟨vs, hvs, rfl⟩ := Effects.map_eq_ok_iff.mp h
      exact mentions_substituteEntries huuid entries s s' vs hvs

/-- The items of a list, in order. -/
theorem mentions_substituteItems (huuid : PlainUuids newUuid) :
    ∀ (items : List Value) (s s' : σ) (vs : List Value),
    scope.substituteItems py newUuid items s = .ok vs s' →
      (!(referencesItems vs).isEmpty) = scope.leavesItems py items
  | [], s, s', vs, h => by
      cases h
      rfl
  | item :: rest, s, s', vs, h => by
      obtain ⟨v, t, hv, h⟩ := Effects.bind_eq_ok_iff.mp h
      obtain ⟨others, u, hothers, h⟩ := Effects.bind_eq_ok_iff.mp h
      cases h
      rw [mentions_cons, Scope.leavesItems, mentions_substitute huuid item s t v hv,
        mentions_substituteItems huuid rest t s' others hothers]

/-- The entries of a mapping, in order. -/
theorem mentions_substituteEntries (huuid : PlainUuids newUuid) :
    ∀ (entries : List (Scalar × Value)) (s s' : σ) (vs : List (Scalar × Value)),
    scope.substituteEntries py newUuid entries s = .ok vs s' →
      (!(referencesEntries vs).isEmpty) = scope.leavesEntries py entries
  | [], s, s', vs, h => by
      cases h
      rfl
  | (key, item) :: rest, s, s', vs, h => by
      obtain ⟨v, t, hv, h⟩ := Effects.bind_eq_ok_iff.mp h
      obtain ⟨others, u, hothers, h⟩ := Effects.bind_eq_ok_iff.mp h
      cases h
      rw [mentions_entries, Scope.leavesEntries, mentions_substitute huuid item s t v hv,
        mentions_substituteEntries huuid rest t s' others hothers]

end

/-- A substitution that succeeds leaves no reference in any string exactly when no
text assembles one: neither a value that is written in brings one along, nor do the
values and the braces around them make one up. -/
theorem references_substitute_iff (huuid : PlainUuids newUuid) {node v : Value}
    (h : scope.substitute py newUuid node s = .ok v s') :
    references v = [] ↔ scope.leaves py node = false := by
  rw [← mentions_substitute huuid node s s' v h, mentions]
  simp

/-- A scope of one variable, in a world with one identifier. -/
def oneVariable (name value : String) : Scope where
  vars := Dict.empty.set name (.str value)
  env := fun _ => none
  captures := Dict.empty

/-- A digit has no braces. -/
theorem plainUuids_zero : PlainUuids (fun _ : Unit => ("0", ())) := by
  intro _
  simp

theorem references_substitute_iff_token :
    (oneVariable "token" "abc").substitute .plain (fun _ : Unit => ("0", ()))
        (.str "Bearer \x7b\x7btoken\x7d\x7d") () = .ok (.str "Bearer abc") () ∧
      (references (.str "Bearer abc") = [] ↔
        (oneVariable "token" "abc").leaves .plain
          (.str "Bearer \x7b\x7btoken\x7d\x7d") = false) := by
  have h : (oneVariable "token" "abc").substitute .plain (fun _ : Unit => ("0", ()))
      (.str "Bearer \x7b\x7btoken\x7d\x7d") () = .ok (.str "Bearer abc") () := rfl
  exact ⟨h, references_substitute_iff plainUuids_zero h⟩

/-- A variable whose value is itself a template. -/
theorem variable_left_in_place :
    ∃ v, (oneVariable "baseUrl" "\x7b\x7bSUT\x7d\x7d").substitute .plain
        (fun _ : Unit => ("0", ())) (.str "\x7b\x7bbaseUrl\x7d\x7d") () = .ok v () ∧
      references v = ["SUT"] :=
  ⟨_, rfl, rfl⟩

end Substitution

end A2aItk.Acts
