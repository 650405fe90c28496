import A2aItk.Acts.PathText
import A2aItk.Acts.Templates

/-!
# References and substitution

A text is read from the left: a reference is two opening braces, a body free of
braces and two closing ones, and what starts no reference stands for itself. What
`references` collects decides whether `substitute` succeeds, and what it returns is the
structure with every reference replaced.
-/

namespace A2aItk.Acts

open Python

/-- What stands between the braces of a reference. -/
def IsBody (body : List Char) : Prop := body ≠ [] ∧ ∀ c ∈ body, c ≠ '\x7b' ∧ c ≠ '\x7d'

/-- A reference as it is written. -/
def braced (body : List Char) : List Char := '\x7b' :: '\x7b' :: (body ++ ['\x7d', '\x7d'])

/-- No reference starts the text. -/
def StartsPlain (text : List Char) : Prop := ∀ body, IsBody body → ¬braced body <+: text

section Scanning

theorem reference?_eq_some_iff {s body : List Char} :
    reference? s = some body ↔ IsBody body ∧ braced body <+: s := by
  constructor
  · intro h
    unfold reference? at h
    split at h
    · rename_i rest
      dsimp only at h
      split at h
      · rename_i c others closing hbody hclosing
        obtain rfl := Option.some.inj h
        refine ⟨⟨by rw [hbody]; exact List.cons_ne_nil c others, fun d hd => ?_⟩, closing, ?_⟩
        · simpa using List.mem_takeWhile_imp hd
        · have htext := List.prefix_iff_eq_append.mp
            ( List.takeWhile_prefix (l := rest) fun c : Char => c ≠ '{' && c ≠ '}')
          rw [hclosing] at htext
          rw [braced, List.cons_append, List.cons_append, List.append_assoc]
          exact congrArg (fun text => '{' :: '{' :: text) htext
      · cases h
    · cases h
  · rintro ⟨⟨hne, hbody⟩, rest, rfl⟩
    have hplain : ∀ c ∈ body, (decide (c ≠ '{') && decide (c ≠ '}')) = true := by
      intro c hc
      simpa using hbody c hc
    have htake : (body ++ '}' :: '}' :: rest).takeWhile
        (fun c => decide (c ≠ '{') && decide (c ≠ '}')) = body := by
      rw [List.takeWhile_append_of_pos hplain]
      simp
    have hdrop : (body ++ '}' :: '}' :: rest).drop body.length = '}' :: '}' :: rest :=
      List.drop_left
    have htext : braced body ++ rest =
        '{' :: '{' :: (body ++ '}' :: '}' :: rest) := by
      simp [braced]
    rw [htext, reference?, htake, hdrop]
    cases body with
    | nil => exact absurd rfl hne
    | cons c others => rfl

theorem piecesGo_skip (skip : ℕ) (s : List Char) : piecesGo skip s = piecesGo 0 (s.drop skip) := by
  induction s generalizing skip with
  | nil => cases skip <;> rfl
  | cons c rest ih =>
      cases skip with
      | zero => rfl
      | succ skip => exact ih skip

/-- A text that starts with a reference. -/
theorem piecesGo_braced {body : List Char} (h : IsBody body) (rest : List Char) :
    piecesGo 0 (braced body ++ rest) = .reference body :: piecesGo 0 rest := by
  have hfound : reference? (braced body ++ rest) = some body :=
    reference?_eq_some_iff.mpr ⟨h, List.prefix_append _ _⟩
  have hdrop : ('{' :: (body ++ ['}', '}']) ++ rest).drop (body.length + 3) = rest := by
    have hlength : body.length + 3 = ('{' :: (body ++ ['}', '}'])).length := by simp
    rw [hlength]
    exact List.drop_left
  rw [braced, List.cons_append] at hfound ⊢
  rw [piecesGo, hfound]
  change Piece.reference body :: piecesGo (body.length + 3) _ = _
  rw [piecesGo_skip, hdrop]

/-- A text that starts with no reference. -/
theorem piecesGo_plain {c : Char} {rest : List Char} (h : StartsPlain (c :: rest)) :
    piecesGo 0 (c :: rest) = .char c :: piecesGo 0 rest := by
  have hnone : reference? (c :: rest) = none := by
    rw [Option.eq_none_iff_forall_ne_some]
    intro body hbody
    obtain ⟨hbody, hstart⟩ := reference?_eq_some_iff.mp hbody
    exact h body hbody hstart
  rw [piecesGo, hnone]

/-- Every text is empty, starts with a reference, or starts with a character that is none. -/
theorem text_cases (s : List Char) :
    s = [] ∨ (∃ body rest, IsBody body ∧ s = braced body ++ rest) ∨
      ∃ c rest, s = c :: rest ∧ StartsPlain s := by
  cases s with
  | nil => exact .inl rfl
  | cons c rest =>
      by_cases hplain : StartsPlain (c :: rest)
      · exact .inr (.inr ⟨c, rest, rfl, hplain⟩)
      · unfold StartsPlain at hplain
        simp only [not_forall, not_not] at hplain
        obtain ⟨body, hbody, others, hothers⟩ := hplain
        exact .inr (.inl ⟨body, others, hbody, hothers.symm⟩)

end Scanning

section Resolving

variable {σ : Type} (py : Interpreter) (newUuid : σ → String × σ) (scope : Scope)

/-- The program raises `UnresolvedVariable` when started in this state. -/
def Unresolved {α : Type} (x : EStateM Exception σ α) (s : σ) : Prop :=
  ∃ message t, x s = .error (.unresolvedVariable message) t

/-- The program returns from every state, or raises `UnresolvedVariable` from every state. -/
def Settles {α : Type} (returns : Bool) (x : EStateM Exception σ α) : Prop :=
  ∀ s, if returns then Effects.Returns x s else Unresolved x s

namespace Settles

variable {α β : Type} {returns returns' : Bool}

theorem pure (a : α) : Settles true (pure a : EStateM Exception σ α) :=
  fun s => Effects.returns_pure a s

theorem bind {x : EStateM Exception σ α} {f : α → EStateM Exception σ β}
    (hx : Settles returns x) (hf : ∀ a, Settles returns' (f a)) :
    Settles (returns && returns') (x >>= f) := by
  intro s
  cases returns with
  | false =>
      obtain ⟨message, t, hs⟩ := hx s
      exact ⟨message, t, Effects.bind_apply_of_error hs⟩
  | true =>
      obtain ⟨a, t, hs⟩ := hx s
      have ht := hf a t
      cases returns' with
      | false =>
          obtain ⟨message, u, hu⟩ := ht
          exact ⟨message, u, (Effects.bind_apply_of_ok hs).trans hu⟩
      | true =>
          obtain ⟨b, u, hu⟩ := ht
          exact ⟨b, u, (Effects.bind_apply_of_ok hs).trans hu⟩

theorem map {x : EStateM Exception σ α} (f : α → β) (hx : Settles returns x) :
    Settles returns (f <$> x) := by
  have hbind := hx.bind fun a => Settles.pure (f a)
  rwa [bind_pure_comp, Bool.and_true] at hbind

end Settles

/-- The reference draws an identifier, or stands for a value. -/
def resolvable (reference : List Char) : Bool :=
  isUuid reference || (scope.lookup? reference).isSome

theorem settles_resolve (reference : List Char) :
    Settles (resolvable scope reference) (scope.resolve py newUuid reference) := by
  intro s
  cases huuid : isUuid reference with
  | true =>
      rw [resolvable, huuid, resolve_of_isUuid huuid]
      exact ⟨.str (newUuid s).1, (newUuid s).2, rfl⟩
  | false =>
      rcases resolve_of_not_isUuid huuid with ⟨v, hlookup, hresolve⟩ | ⟨hlookup, message, hresolve⟩
      · rw [resolvable, huuid, hlookup, hresolve]
        exact ⟨v, s, rfl⟩
      · rw [resolvable, huuid, hlookup, hresolve]
        exact ⟨message, s, rfl⟩

/-- Surrounding whitespace is of no account. -/
theorem resolvable_strip (body : List Char) :
    resolvable scope (String.ofList (Text.strip body)).toList = resolvable scope body := by
  have hstrip : Text.strip (Text.strip body) = Text.strip body :=
    Text.strip_eq_self (head?_strip body) (getLast?_strip body)
  rw [String.toList_ofList]
  unfold resolvable isUuid Scope.lookup?
  rw [hstrip]

/-- All references of a structure stand for something. -/
def resolvableAll (names : List String) : Bool :=
  names.all fun name => resolvable scope name.toList

theorem settles_interpolate (parts : List Piece) :
    Settles (resolvableAll scope (parts.filterMap Piece.name?))
      (scope.interpolate py newUuid parts) := by
  induction parts with
  | nil => exact .pure []
  | cons piece rest ih =>
      cases piece with
      | char c => exact ih.map fun text => c :: text
      | reference body =>
          have hname : resolvableAll scope
              ((Piece.reference body :: rest).filterMap Piece.name?) =
                (resolvable scope body &&
                  (resolvableAll scope (rest.filterMap Piece.name?) && true)) := by
            simp [resolvableAll, Piece.name?, ← resolvable_strip scope body]
          rw [hname]
          exact (settles_resolve py newUuid scope body).bind fun v =>
            ih.bind fun text => .pure _

theorem settles_substituteText (text : String) :
    Settles (resolvableAll scope (referencesOf text)) (scope.substituteText py newUuid text) := by
  unfold Scope.substituteText referencesOf
  split
  · rename_i body hpieces
    have hname : resolvableAll scope ((pieces text).filterMap Piece.name?) =
        resolvable scope body := by
      simp [hpieces, resolvableAll, Piece.name?, ← resolvable_strip scope body]
    rw [hname]
    exact settles_resolve py newUuid scope body
  · exact (settles_interpolate py newUuid scope (pieces text)).map fun chars =>
      Value.str (String.ofList chars)

mutual

/-- A substitution succeeds when every reference it finds stands for something, and raises
`UnresolvedVariable` otherwise. -/
theorem settles_substitute : ∀ node : Value,
    Settles (resolvableAll scope (references node)) (scope.substitute py newUuid node)
  | .scalar s => by
      cases s with
      | str text => exact settles_substituteText py newUuid scope text
      | _ => exact .pure _
  | .list items => (settles_substituteItems items).map Value.list
  | .dict entries => (settles_substituteEntries entries).map Value.dict

theorem settles_substituteItems : ∀ items : List Value,
    Settles (resolvableAll scope (referencesItems items))
      (scope.substituteItems py newUuid items)
  | [] => .pure []
  | v :: rest => by
      have hnames : resolvableAll scope (referencesItems (v :: rest)) =
          (resolvableAll scope (references v) &&
            (resolvableAll scope (referencesItems rest) && true)) := by
        simp [resolvableAll, referencesItems]
      rw [hnames]
      exact (settles_substitute v).bind fun w =>
        (settles_substituteItems rest).bind fun others => .pure (w :: others)

theorem settles_substituteEntries : ∀ entries : List (Scalar × Value),
    Settles (resolvableAll scope (referencesEntries entries))
      (scope.substituteEntries py newUuid entries)
  | [] => .pure []
  | (key, v) :: rest => by
      have hnames : resolvableAll scope (referencesEntries ((key, v) :: rest)) =
          (resolvableAll scope (references v) &&
            (resolvableAll scope (referencesEntries rest) && true)) := by
        simp [resolvableAll, referencesEntries]
      rw [hnames]
      exact (settles_substitute v).bind fun w =>
        (settles_substituteEntries rest).bind fun others => .pure ((key, w) :: others)

end

end Resolving

section Result

variable {σ : Type} (py : Interpreter) (newUuid : σ → String × σ) (scope : Scope)

/-- The value is one the reference resolves to; `$uuid` has a new one each time. -/
def ResolvesTo (body : List Char) (v : Value) : Prop :=
  ∃ s t, scope.resolve py newUuid body s = .ok v t

/-- The text with every reference replaced by the text of a value it resolves to, and
everything else as it was. -/
inductive Replaced : List Char → List Char → Prop
  | done : Replaced [] []
  | reference {body rest result : List Char} {v : Value} (h : IsBody body)
      (hv : ResolvesTo py newUuid scope body v) (others : Replaced rest result) :
      Replaced (braced body ++ rest) ((v.text py).toList ++ result)
  | plain {c : Char} {rest result : List Char} (h : StartsPlain (c :: rest))
      (others : Replaced rest result) : Replaced (c :: rest) (c :: result)

/-- A text that is one reference becomes its value, any other text has its references
replaced. -/
def SubstitutedText (text : String) (v : Value) : Prop :=
  (∃ body, IsBody body ∧ text.toList = braced body ∧ ResolvesTo py newUuid scope body v) ∨
    (∀ body, IsBody body → text.toList ≠ braced body) ∧
      ∃ chars, v = .str (String.ofList chars) ∧ Replaced py newUuid scope text.toList chars

mutual

/-- The structure with its texts substituted: keys, lengths and every other scalar stay. -/
def Substituted : Value → Value → Prop
  | .scalar (.str text), v => SubstitutedText py newUuid scope text v
  | .scalar s, v => v = .scalar s
  | .list items, v => ∃ items', v = .list items' ∧ SubstitutedItems items items'
  | .dict entries, v => ∃ entries', v = .dict entries' ∧ SubstitutedEntries entries entries'

def SubstitutedItems : List Value → List Value → Prop
  | [], items' => items' = []
  | v :: rest, items' =>
      ∃ w rest', items' = w :: rest' ∧ Substituted v w ∧ SubstitutedItems rest rest'

def SubstitutedEntries : List (Scalar × Value) → List (Scalar × Value) → Prop
  | [], entries' => entries' = []
  | (key, v) :: rest, entries' =>
      ∃ w rest', entries' = (key, w) :: rest' ∧ Substituted v w ∧ SubstitutedEntries rest rest'

end

variable {py newUuid scope}

theorem replaced_of_interpolate (text : List Char) {s t : σ} {chars : List Char}
    (h : scope.interpolate py newUuid (piecesGo 0 text) s = .ok chars t) :
    Replaced py newUuid scope text chars := by
  induction hlen : text.length using Nat.strong_induction_on generalizing text s chars with
  | h n ih =>
      subst hlen
      rcases text_cases text with rfl | ⟨body, rest, hbody, rfl⟩ | ⟨c, rest, rfl, hplain⟩
      · cases h
        exact .done
      · rw [piecesGo_braced hbody] at h
        obtain ⟨v, u, hv, h⟩ := Effects.bind_eq_ok_iff.mp h
        obtain ⟨others, u', hothers, h⟩ := Effects.bind_eq_ok_iff.mp h
        cases h
        refine .reference hbody ⟨s, u, hv⟩ (ih rest.length ?_ rest hothers rfl)
        simp [braced]
        omega
      · rw [piecesGo_plain hplain] at h
        obtain ⟨others, u, hothers, h⟩ := Effects.bind_eq_ok_iff.mp h
        cases h
        exact .plain hplain (ih rest.length (by simp) rest hothers rfl)

/-- A text that is nothing but a reference, as the scanner sees it. -/
theorem pieces_eq_reference_iff {text : String} {body : List Char} :
    pieces text = [.reference body] ↔ IsBody body ∧ text.toList = braced body := by
  unfold pieces
  constructor
  · intro h
    rcases text_cases text.toList with hnil | ⟨body', rest, hbody, htext⟩ | ⟨c, rest, htext, hplain⟩
    · rw [hnil] at h
      cases h
    · rw [htext, piecesGo_braced hbody] at h
      obtain ⟨hhead, htail⟩ := List.cons.inj h
      cases hhead
      refine ⟨hbody, ?_⟩
      rcases text_cases rest with rfl | ⟨b, r, hb, rfl⟩ | ⟨c, r, rfl, hr⟩
      · rw [htext, List.append_nil]
      · rw [piecesGo_braced hb] at htail
        cases htail
      · rw [piecesGo_plain hr] at htail
        cases htail
    · rw [htext] at h hplain
      rw [piecesGo_plain hplain] at h
      cases h
  · rintro ⟨hbody, htext⟩
    have hgo := piecesGo_braced hbody []
    rwa [List.append_nil, ← htext] at hgo

theorem substitutedText_of_ok {text : String} {s t : σ} {v : Value}
    (h : scope.substituteText py newUuid text s = .ok v t) :
    SubstitutedText py newUuid scope text v := by
  by_cases hwhole : ∃ body, pieces text = [.reference body]
  · obtain ⟨body, hpieces⟩ := hwhole
    obtain ⟨hbody, htext⟩ := pieces_eq_reference_iff.mp hpieces
    rw [substituteText_of_reference hpieces] at h
    exact .inl ⟨body, hbody, htext, s, t, h⟩
  · have hnot : ∀ body, pieces text ≠ [.reference body] := not_exists.mp hwhole
    rw [substituteText_of_ne hnot] at h
    obtain ⟨chars, u, hchars, h⟩ := Effects.bind_eq_ok_iff.mp h
    cases h
    exact .inr ⟨fun body hbody htext => hnot body (pieces_eq_reference_iff.mpr ⟨hbody, htext⟩),
      chars, rfl, replaced_of_interpolate text.toList hchars⟩

mutual

theorem substituted_of_ok : ∀ (node : Value) (s t : σ) (v : Value),
    scope.substitute py newUuid node s = .ok v t → Substituted py newUuid scope node v
  | .scalar scalar, s, t, v, h => by
      cases scalar with
      | str text => exact substitutedText_of_ok h
      | _ =>
          cases h
          rfl
  | .list items, s, t, v, h => by
      obtain ⟨vs, hvs, rfl⟩ := Effects.map_eq_ok_iff.mp h
      exact ⟨vs, rfl, substitutedItems_of_ok items s t vs hvs⟩
  | .dict entries, s, t, v, h => by
      obtain ⟨vs, hvs, rfl⟩ := Effects.map_eq_ok_iff.mp h
      exact ⟨vs, rfl, substitutedEntries_of_ok entries s t vs hvs⟩

theorem substitutedItems_of_ok : ∀ (items : List Value) (s t : σ) (vs : List Value),
    scope.substituteItems py newUuid items s = .ok vs t →
      SubstitutedItems py newUuid scope items vs
  | [], s, t, vs, h => by
      cases h
      rfl
  | item :: rest, s, t, vs, h => by
      obtain ⟨v, u, hv, h⟩ := Effects.bind_eq_ok_iff.mp h
      obtain ⟨others, u', hothers, h⟩ := Effects.bind_eq_ok_iff.mp h
      cases h
      exact ⟨v, others, rfl, substituted_of_ok item s u v hv,
        substitutedItems_of_ok rest u t others hothers⟩

theorem substitutedEntries_of_ok :
    ∀ (entries : List (Scalar × Value)) (s t : σ) (vs : List (Scalar × Value)),
    scope.substituteEntries py newUuid entries s = .ok vs t →
      SubstitutedEntries py newUuid scope entries vs
  | [], s, t, vs, h => by
      cases h
      rfl
  | (key, item) :: rest, s, t, vs, h => by
      obtain ⟨v, u, hv, h⟩ := Effects.bind_eq_ok_iff.mp h
      obtain ⟨others, u', hothers, h⟩ := Effects.bind_eq_ok_iff.mp h
      cases h
      exact ⟨v, others, rfl, substituted_of_ok item s u v hv,
        substitutedEntries_of_ok rest u t others hothers⟩

end

end Result

section Agreement

variable {σ : Type}

/-- `substitute` raises `UnresolvedVariable` exactly when some of the `references` does so by
itself, which does not depend on the state of the world, and otherwise returns the
structure with its texts substituted. -/
theorem substitute_agrees (py : Interpreter) (newUuid : σ → String × σ) (scope : Scope) :
    (∀ (node : Value) (s : σ), Unresolved (scope.substitute py newUuid node) s ↔
      ∃ name ∈ references node, ∀ t, Unresolved (scope.resolve py newUuid name.toList) t) ∧
    (∀ name : String, (∀ t, Effects.Returns (scope.resolve py newUuid name.toList) t) ∨
      ∀ t, Unresolved (scope.resolve py newUuid name.toList) t) ∧
    ∀ (node : Value) (s : σ), ¬Unresolved (scope.substitute py newUuid node) s →
      ∃ v t, scope.substitute py newUuid node s = .ok v t ∧
        Substituted py newUuid scope node v := by
  have hname (name : String) := settles_resolve py newUuid scope name.toList
  have hnever {α : Type} {x : EStateM Exception σ α} {s : σ} (hreturns : Effects.Returns x s) :
      ¬Unresolved x s := by
    rintro ⟨message, t, herror⟩
    obtain ⟨a, u, hok⟩ := hreturns
    rw [herror] at hok
    cases hok
  refine ⟨?_, ?_, ?_⟩
  · intro node s
    have hnode := settles_substitute py newUuid scope node s
    constructor
    · intro hraises
      have hfalse : resolvableAll scope (references node) = false := by
        rw [Bool.eq_false_iff]
        intro htrue
        rw [htrue] at hnode
        exact hnever hnode hraises
      obtain ⟨name, hmem, hunresolved⟩ := List.all_eq_false.mp hfalse
      refine ⟨name, hmem, fun t => ?_⟩
      have hraise := hname name t
      rwa [Bool.eq_false_iff.mpr hunresolved] at hraise
    · rintro ⟨name, hmem, hraises⟩
      have hfalse : resolvableAll scope (references node) = false := by
        refine List.all_eq_false.mpr ⟨name, hmem, fun htrue => ?_⟩
        have hreturns := hname name s
        rw [htrue] at hreturns
        exact hnever hreturns (hraises s)
      rwa [hfalse] at hnode
  · intro name
    cases hresolvable : resolvable scope name.toList with
    | true =>
        left
        intro t
        have hreturns := hname name t
        rwa [hresolvable] at hreturns
    | false =>
        right
        intro t
        have hraises := hname name t
        rwa [hresolvable] at hraises
  · intro node s hnot
    have hnode := settles_substitute py newUuid scope node s
    cases hall : resolvableAll scope (references node) with
    | false =>
        rw [hall] at hnode
        exact absurd hnode hnot
    | true =>
        rw [hall] at hnode
        obtain ⟨v, t, hok⟩ := hnode
        exact ⟨v, t, hok, substituted_of_ok node s t v hok⟩

theorem substitute_agrees_token :
    ∃ v t, (oneVariable "token" "abc").substitute .plain (fun _ : Unit => ("0", ()))
        (.str "Bearer {{token}}") () = .ok v t ∧
      Substituted .plain (fun _ : Unit => ("0", ())) (oneVariable "token" "abc")
        (.str "Bearer {{token}}") v := by
  apply (substitute_agrees .plain (fun _ : Unit => ("0", ())) (oneVariable "token" "abc")).2.2
  rintro ⟨message, t, herror⟩
  cases herror

end Agreement

end A2aItk.Acts
