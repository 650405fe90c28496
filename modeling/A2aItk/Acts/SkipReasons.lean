import A2aItk.Acts.Deviations
import Mathlib.Data.List.TakeWhile

/-!
# Which pass a skip reason is claimed by

The patterns of the two passes as sets of words, and where such a word can lie
in a reason. A reason is fixed text around text the suite or the card supplies,
and no word of a pass reaches across the border: a pass that is not meant for a
branch claims its reasons exactly when it claims the supplied text.
-/

namespace A2aItk.Acts

open Python

section Words

variable (beyond : Char → Bool)

namespace Pass

/-- What every match of the pass begins with. -/
def head : Pass → List Char
  | reduced => capabilityHead
  | auth => securitySkip

/-- The texts the pattern of the pass matches. -/
def words : Pass → Set (List Char)
  | reduced => {m | ∃ word ≠ [], (∀ c ∈ word, isWord beyond c = true) ∧
      m = capabilityHead ++ (word ++ capabilityTail)}
  | auth => {securitySkip}

/-- The end of a word: what follows the captured name is no part of it. -/
theorem takeWhile_word {word rest : List Char} (hword : ∀ c ∈ word, isWord beyond c = true) :
    (word ++ (capabilityTail ++ rest)).takeWhile (isWord beyond) = word := by
  have hstop : (capabilityTail ++ rest).takeWhile (isWord beyond) = [] := rfl
  rw [List.takeWhile_append_of_pos hword, hstop, List.append_nil]

theorem capabilityAt_isSome_iff (s : List Char) :
    (capabilityAt beyond s).isSome = true ↔ ∃ m ∈ reduced.words beyond, m <+: s := by
  constructor
  · intro h
    unfold capabilityAt at h
    split at h
    · rename_i hhead
      obtain ⟨rest, rfl⟩ := List.isPrefixOf_iff_prefix.mp hhead
      simp only [List.drop_left, Option.isSome_ite, Bool.and_eq_true, Bool.not_eq_true',
        List.isEmpty_eq_false_iff, List.isPrefixOf_iff_prefix] at h
      obtain ⟨hne, htail⟩ := h
      refine ⟨_, ⟨rest.takeWhile (isWord beyond), hne, fun c hc => List.mem_takeWhile_imp hc,
        rfl⟩, ?_⟩
      rw [List.prefix_append_right_inj]
      calc
        rest.takeWhile (isWord beyond) ++ capabilityTail
            <+: rest.takeWhile (isWord beyond) ++
              rest.drop (rest.takeWhile (isWord beyond)).length :=
          (List.prefix_append_right_inj _).mpr htail
        _ = rest := List.prefix_iff_eq_append.mp (List.takeWhile_prefix _)
    · cases h
  · rintro ⟨m, ⟨word, hne, hword, rfl⟩, rest, rfl⟩
    have hhead : capabilityHead.isPrefixOf
        (capabilityHead ++ (word ++ capabilityTail) ++ rest) = true := by
      rw [List.isPrefixOf_iff_prefix, List.append_assoc]
      exact List.prefix_append _ _
    have htail : capabilityTail.isPrefixOf (capabilityTail ++ rest) = true := by
      rw [List.isPrefixOf_iff_prefix]
      exact List.prefix_append _ _
    rw [capabilityAt, if_pos hhead, List.append_assoc, List.drop_left, List.append_assoc]
    simp only [takeWhile_word beyond hword, List.drop_left, htail, Bool.and_true]
    simp [hne]

theorem matchAt_isSome_iff (pass : Pass) (s : List Char) :
    (pass.matchAt beyond s).isSome = true ↔ ∃ m ∈ pass.words beyond, m <+: s := by
  cases pass with
  | reduced => exact capabilityAt_isSome_iff beyond s
  | auth => simp [matchAt, securityAt, words]

/-- A pass claims a text that has one of its words in it. -/
theorem search_isSome_iff (pass : Pass) (s : String) :
    (pass.search beyond s).isSome = true ↔ Pattern.Occurs (pass.words beyond) s.toList := by
  rw [search, Option.isSome_map]
  exact Pattern.search_isSome_iff (matchAt_isSome_iff beyond pass)

theorem head_begins (pass : Pass) : ∀ m ∈ pass.words beyond, pass.head <+: m := by
  cases pass with
  | reduced =>
      rintro m ⟨word, -, -, rfl⟩
      exact List.prefix_append _ _
  | auth =>
      rintro m rfl
      exact List.prefix_rfl

/-- A character of the head, or of the tail, is one of every word. -/
theorem mem_word {pass : Pass} {c : Char} (hc : c ∈ pass.head) :
    ∀ m ∈ pass.words beyond, c ∈ m :=
  fun m hm => (head_begins beyond pass m hm).subset hc

theorem equals_mem_word (pass : Pass) : ∀ m ∈ pass.words beyond, '=' ∈ m := by
  cases pass with
  | reduced =>
      rintro m ⟨word, -, -, rfl⟩
      have htail : '=' ∈ capabilityTail := by decide
      simp [htail]
  | auth => exact mem_word beyond (by decide)

/-- No word has a quotation mark in it. -/
theorem quote_notMem_word (pass : Pass) {q : Char} (hq : q = '\'' ∨ q = '"') :
    ∀ m ∈ pass.words beyond, q ∉ m := by
  cases pass with
  | reduced =>
      rintro m ⟨word, -, hword, rfl⟩
      have hhead : q ∉ capabilityHead := by rcases hq with rfl | rfl <;> decide
      have htail : q ∉ capabilityTail := by rcases hq with rfl | rfl <;> decide
      have hnot : isWord beyond q = false := by rcases hq with rfl | rfl <;> rfl
      have hmid : q ∉ word := fun hmem => by simp [hword q hmem] at hnot
      simp [hhead, hmid, htail]
  | auth =>
      rintro m rfl
      rcases hq with rfl | rfl <;> decide

theorem not_occurs_nil (pass : Pass) : ¬ Pattern.Occurs (pass.words beyond) [] :=
  Pattern.not_occurs_of_notMem (equals_mem_word beyond pass) (by simp)

end Pass

end Words

section Joined

theorem notMem_append {c : Char} {a b : String} (ha : c ∉ a.toList) (hb : c ∉ b.toList) :
    c ∉ (a ++ b).toList := by
  rw [String.toList_append, List.mem_append, not_or]
  exact ⟨ha, hb⟩

theorem notMem_intercalate {c : Char} {separator : String} {names : List String}
    (hsep : c ∉ separator.toList) (hnames : ∀ name ∈ names, c ∉ name.toList) :
    c ∉ (separator.intercalate names).toList := by
  induction names with
  | nil => simp
  | cons name rest ih =>
      have hrest := ih fun s hs => hnames s (by simp [hs])
      cases rest with
      | nil => simpa using hnames name (by simp)
      | cons next rest =>
          rw [String.intercalate_cons_cons]
          exact notMem_append (notMem_append (hnames name (by simp)) hsep) hrest

theorem notMem_joinSorted {c : Char} {names : List String} (hsep : c ∉ ", ".toList)
    (hnames : ∀ name ∈ names, c ∉ name.toList) : c ∉ (joinSorted names).toList := by
  apply notMem_intercalate hsep
  intro name hname
  rw [Scenarios.sortedSet, List.mem_insertionSort, List.mem_dedup] at hname
  exact hnames name hname

end Joined

namespace SkipBranch

variable (py : Interpreter) (beyond : Char → Bool)

/-- The pass that can clear the skips of a branch. -/
def meant : SkipBranch → Option Pass
  | capability .. | capabilityValue .. => some .reduced
  | authentication .. => some .auth
  | _ => none

/-- The text of a reason that the suite or the card supplies. -/
def embedded : SkipBranch → String
  | unknownCapability name => Text.repr name
  | capabilityValue _ actual expected => actual.repr py ++ ", needs " ++ expected.repr py
  | skills absent => joinSorted absent
  | extensions absent => joinSorted absent
  | _ => ""

theorem equals_notMem_showBool (b : Bool) : '=' ∉ (showBool b).toList := by
  cases b <;> decide

theorem equals_notMem_binding (t : TransportBinding) : '=' ∉ t.value.toList := by
  cases t <;> decide

theorem equals_notMem_kind (kind : StepKind) : '=' ∉ kind.value.toList := by
  cases kind <;> decide

theorem equals_notMem_requirement (r : RunnerRequirement) : '=' ∉ r.value.toList := by
  cases r <;> decide

theorem equals_notMem_values {α : Type*} {value : α → String} (items : List α)
    (hvalue : ∀ a, '=' ∉ (value a).toList) : '=' ∉ (joinSorted (items.map value)).toList := by
  apply notMem_joinSorted (by decide)
  intro name hname
  obtain ⟨a, -, rfl⟩ := List.mem_map.mp hname
  exact hvalue a

/-- Without an equals sign in it a reason is claimed by nobody. -/
theorem not_claimed_of_fixed {pass : Pass} {reason : String} (h : '=' ∉ reason.toList) :
    (pass.search beyond reason).isSome = true ↔ (pass.search beyond "").isSome = true := by
  rw [Pass.search_isSome_iff, Pass.search_isSome_iff]
  exact iff_of_false (Pattern.not_occurs_of_notMem (pass.equals_mem_word beyond) h)
    (pass.not_occurs_nil beyond)

/-- Fixed text in front of a free one. -/
theorem claimed_append_iff (pass : Pass) {fixed : String}
    (hapart : Pattern.apart pass.head fixed.toList = true) (free : String) :
    (pass.search beyond (fixed ++ free)).isSome = true ↔
      (pass.search beyond free).isSome = true := by
  rw [Pass.search_isSome_iff, Pass.search_isSome_iff, String.toList_append]
  exact Pattern.occurs_append_apart (pass.head_begins beyond) hapart free.toList

/-- The fixed text of a capability branch. -/
theorem apart_capability (name : KnownCapability) :
    Pattern.apart Pass.securitySkip
      ("agent card capability " ++ name.val ++ "=").toList = true := by
  have hall : ∀ name ∈ knownCapabilities, Pattern.apart Pass.securitySkip
      ("agent card capability " ++ name ++ "=").toList = true := by decide
  exact hall name.val name.property

theorem toList_repr (s : String) :
    ∃ q inner, (q = '\'' ∨ q = '"') ∧ (Text.repr s).toList = q :: (inner ++ [q]) := by
  unfold Text.repr
  split
  · exact ⟨'"', _, .inr rfl, String.toList_ofList⟩
  · exact ⟨'\'', _, .inl rfl, String.toList_ofList⟩

/-- The quotation marks around a name fence it off. -/
theorem claimed_quoted_iff (pass : Pass) {before after : String} (name : String)
    (hbefore : '=' ∉ before.toList) (hafter : '=' ∉ after.toList) :
    (pass.search beyond (before ++ Text.repr name ++ after)).isSome = true ↔
      (pass.search beyond (Text.repr name)).isSome = true := by
  obtain ⟨q, inner, hq, hrepr⟩ := toList_repr name
  have hquote := pass.quote_notMem_word beyond hq
  have hfenced (a b : List Char) (ha : '=' ∉ a) (hb : '=' ∉ b) :
      Pattern.Occurs (pass.words beyond) (a ++ q :: (inner ++ q :: b)) ↔
        Pattern.Occurs (pass.words beyond) inner := by
    have hneeds := pass.equals_mem_word beyond
    rw [Pattern.occurs_append_separator hquote, Pattern.occurs_append_separator hquote]
    simp only [Pattern.not_occurs_of_notMem hneeds ha, Pattern.not_occurs_of_notMem hneeds hb,
      false_or, or_false]
  rw [Pass.search_isSome_iff, Pass.search_isSome_iff, String.toList_append,
    String.toList_append, hrepr, List.append_assoc, List.cons_append, List.append_assoc]
  calc
    Pattern.Occurs (pass.words beyond) (before.toList ++ q :: (inner ++ q :: after.toList)) ↔
        Pattern.Occurs (pass.words beyond) inner := hfenced _ _ hbefore hafter
    _ ↔ Pattern.Occurs (pass.words beyond) (q :: (inner ++ [q])) :=
      (hfenced [] [] (by simp) (by simp)).symm

/-- A pass that is not meant for the branch claims its reason exactly when it claims
the supplied text. -/
theorem claimed_text_iff (branch : SkipBranch) (pass : Pass) (h : branch.meant ≠ some pass) :
    (pass.search beyond (branch.text py)).isSome = true ↔
      (pass.search beyond (branch.embedded py)).isSome = true := by
  cases branch with
  | otherBinding targets binding =>
      apply not_claimed_of_fixed
      have htargets : '=' ∉ (", ".intercalate (targets.map TransportBinding.value)).toList := by
        apply notMem_intercalate (by decide)
        intro name hname
        obtain ⟨t, -, rfl⟩ := List.mem_map.mp hname
        exact equals_notMem_binding t
      have hstart : '=' ∉ "targets ".toList := by decide
      have hmiddle : '=' ∉ "; this runner speaks ".toList := by decide
      exact notMem_append (notMem_append (notMem_append hstart htargets) hmiddle)
        (equals_notMem_binding binding)
  | deferred kinds =>
      apply not_claimed_of_fixed
      have hkinds := equals_notMem_values kinds equals_notMem_kind
      have hstart : '=' ∉ "contains ".toList := by decide
      have hend : '=' ∉ " step(s); not yet supported".toList := by decide
      exact notMem_append (notMem_append hstart hkinds) hend
  | missing requirements =>
      apply not_claimed_of_fixed
      have hneeded := equals_notMem_values requirements equals_notMem_requirement
      have hstart : '=' ∉ "runner does not provide ".toList := by decide
      exact notMem_append hstart hneeded
  | unknownCapability name =>
      have hknown : '=' ∉ (joinSorted knownCapabilities).toList :=
        notMem_joinSorted (by decide) (by decide)
      have hstart : '=' ∉ " is not a capability A2A defines (".toList := by decide
      have hend : '=' ∉ "), so no agent card can advertise it".toList := by decide
      have hbefore : '=' ∉ unsatisfiable.toList := by decide
      have hreason := claimed_quoted_iff beyond pass name hbefore
        (notMem_append (notMem_append hstart hknown) hend)
      rw [← String.append_assoc, ← String.append_assoc] at hreason
      exact hreason
  | capability name actual expected =>
      obtain rfl : pass = .auth := by cases pass <;> simp [meant] at h ⊢
      have hneeds : '=' ∉ ", needs ".toList := by decide
      have hrest : '=' ∉ (showBool actual ++ ", needs " ++ showBool expected).toList :=
        notMem_append (notMem_append (equals_notMem_showBool actual) hneeds)
          (equals_notMem_showBool expected)
      have happend := claimed_append_iff beyond .auth (apart_capability name)
        (showBool actual ++ ", needs " ++ showBool expected)
      rw [not_claimed_of_fixed beyond hrest] at happend
      rw [← String.append_assoc, ← String.append_assoc] at happend
      exact happend
  | capabilityValue name actual expected =>
      obtain rfl : pass = .auth := by cases pass <;> simp [meant] at h ⊢
      have happend := claimed_append_iff beyond .auth (apart_capability name)
        (actual.repr py ++ ", needs " ++ expected.repr py)
      rw [← String.append_assoc, ← String.append_assoc] at happend
      exact happend
  | authentication actual expected =>
      obtain rfl : pass = .reduced := by cases pass <;> simp [meant] at h ⊢
      have hneeds : ∀ m ∈ Pass.reduced.words beyond, 'y' ∈ m :=
        Pass.mem_word beyond (by decide)
      have htext : 'y' ∉ ("agent card authentication=" ++ showBool actual ++ ", needs " ++
          showBool expected).toList := by
        cases actual <;> cases expected <;> decide
      rw [Pass.search_isSome_iff, Pass.search_isSome_iff]
      exact iff_of_false (Pattern.not_occurs_of_notMem hneeds htext)
        (Pass.reduced.not_occurs_nil beyond)
  | skills absent =>
      have hapart : Pattern.apart pass.head "agent card lacks skill(s) ".toList = true := by
        cases pass <;> decide
      exact claimed_append_iff beyond pass hapart (joinSorted absent)
  | bindings wanted =>
      apply not_claimed_of_fixed
      have hwanted := equals_notMem_values wanted equals_notMem_binding
      have hstart : '=' ∉ "agent card advertises no binding among ".toList := by decide
      exact notMem_append hstart hwanted
  | extensions absent =>
      have hapart : Pattern.apart pass.head "agent card lacks extension(s) ".toList = true := by
        cases pass <;> decide
      exact claimed_append_iff beyond pass hapart (joinSorted absent)

end SkipBranch

end A2aItk.Acts
