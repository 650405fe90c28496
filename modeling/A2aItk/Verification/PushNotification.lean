import A2aItk.Traversal.AgentSemantics
import Mathlib.Combinatorics.Hall.Finite

/-!
# Checking what was pushed

`_verify_push_notification` of `testlib.py`: the expected tokens are cut into the
chains of the circuits, each chain gives the texts the agents along it should
have pushed, and every one of these must turn up in a notification.

## Implementation notes

The notifications that are checked are those that were read as text.
-/

namespace A2aItk.Verification

open Python
open Traversal (circuitTokens endToken traceToken)

/-- `needle in text`. -/
def occursIn (needle text : String) : Bool := decide (needle.toList <:+: text.toList)

section Check

/-- `token.startswith('traversal-completed:')`. -/
def isTerminal (token : String) : Bool :=
  "traversal-completed:".toList.isPrefixOf token.toList

/-- Expected tokens cut after each terminal token. -/
def chainsFrom (currentChain : List String) : List String → List (List String)
  | [] => if currentChain.isEmpty then [] else [currentChain]
  | token :: rest =>
      if isTerminal token then (currentChain ++ [token]) :: chainsFrom [] rest
      else chainsFrom (currentChain ++ [token]) rest

/-- The states from `currentState` on, a token put before each. -/
def statesFrom (currentState : String) : List String → List String
  | [] => []
  | token :: rest =>
      (token ++ "\n" ++ currentState) :: statesFrom (token ++ "\n" ++ currentState) rest

def chainStates (chain : List String) : List String :=
  match chain.getLast? with
  | none => []
  | some terminalToken => terminalToken :: statesFrom terminalToken chain.dropLast

def expectedStates (expectedEndTokens : List String) : List String :=
  (chainsFrom [] expectedEndTokens).flatMap chainStates

/-- `for state in copy: if state in text: remaining.remove(state)`. -/
def dischargeFrom (text : String) : List String → List String → List String
  | [], remaining => remaining
  | state :: rest, remaining =>
      dischargeFrom text rest (if occursIn state text then remaining.erase state else remaining)

/-- The states no notification contains. -/
def remainingStates (texts states : List String) : List String :=
  texts.foldl (fun remaining text => dischargeFrom text remaining remaining) states

def verifyPushNotification (notificationTexts expectedEndTokens : List String) : Bool :=
  if !(remainingStates notificationTexts (expectedStates expectedEndTokens)).isEmpty then false
  else expectedEndTokens.all fun token => occursIn token (String.join notificationTexts)

end Check

section Expected

variable {transport : String}

/-- The text the first agent of what is left of a circuit pushes. -/
def hopState (transport : String) : List String → String
  | u :: v :: rest => traceToken u v transport ++ "\n" ++ hopState transport (v :: rest)
  | _ => endToken transport

/-- The texts pushed along a circuit, the last agent's first. -/
def hopStates (transport : String) : List String → List String
  | u :: v :: rest =>
      hopStates transport (v :: rest) ++ [hopState transport (u :: v :: rest)]
  | _ => [endToken transport]

/-- What is expected of the circuits of a traversal, each with its transport. -/
def endTokens (walks : List (String × List String)) : List String :=
  walks.flatMap fun w => circuitTokens w.1 w.2 ++ [endToken w.1]

def pushedStates (walks : List (String × List String)) : List String :=
  walks.flatMap fun w => hopStates w.1 w.2

theorem isTerminal_endToken (transport : String) : isTerminal (endToken transport) = true := by
  simp [isTerminal, endToken, Traversal.endOfTraversalToken, toString, String.toList_append]

theorem isTerminal_traceToken (u v transport : String) :
    isTerminal (traceToken u v transport) = false := by
  simp only [isTerminal, traceToken, toString, String.toList_append]
  rfl

/-- Tokens of hops are gathered up to the terminal token after them. -/
theorem chainsFrom_append {tokens : List String} (h : ∀ token ∈ tokens, isTerminal token = false)
    (currentChain rest : List String) :
    chainsFrom currentChain (tokens ++ endToken transport :: rest) =
      (currentChain ++ tokens ++ [endToken transport]) :: chainsFrom [] rest := by
  induction tokens generalizing currentChain with
  | nil => simp [chainsFrom, isTerminal_endToken]
  | cons token tokens ih =>
      have htoken := h token (by simp)
      rw [List.cons_append, chainsFrom, if_neg (by simp [htoken]),
        ih fun t ht => h t (List.mem_cons_of_mem _ ht)]
      simp

theorem isTerminal_circuitTokens {circuit : List String} :
    ∀ token ∈ circuitTokens transport circuit, isTerminal token = false := by
  intro token h
  simp only [circuitTokens, List.mem_reverse, List.mem_map] at h
  obtain ⟨e, -, rfl⟩ := h
  exact isTerminal_traceToken e.1 e.2 transport

theorem statesFrom_concat (currentState token : String) (tokens : List String) :
    statesFrom currentState (tokens ++ [token]) =
      statesFrom currentState tokens ++
        [token ++ "\n" ++ (currentState :: statesFrom currentState tokens).getLast (by simp)] := by
  induction tokens generalizing currentState with
  | nil => rfl
  | cons first rest ih =>
      rw [List.cons_append, statesFrom, ih]
      simp [statesFrom]

theorem hopStates_getLast? (transport : String) (circuit : List String) :
    (hopStates transport circuit).getLast? = some (hopState transport circuit) := by
  cases circuit with
  | nil => rfl
  | cons u rest => cases rest <;> simp [hopStates, hopState]

/-- The states of a circuit's chain are what its agents push. -/
theorem chainStates_circuit (transport : String) (circuit : List String) :
    chainStates (circuitTokens transport circuit ++ [endToken transport]) =
      hopStates transport circuit := by
  have hchain (tokens : List String) : chainStates (tokens ++ [endToken transport]) =
      endToken transport :: statesFrom (endToken transport) tokens := by
    simp [chainStates]
  rw [hchain]
  induction circuit with
  | nil => rfl
  | cons u rest ih =>
      cases rest with
      | nil => rfl
      | cons v rest =>
          have hlast := hopStates_getLast? transport (v :: rest)
          rw [← ih, List.getLast?_eq_some_getLast (by simp), Option.some.injEq] at hlast
          rw [Traversal.circuitTokens_cons_cons, statesFrom_concat, hopStates, hopState, ← ih,
            hlast]
          rfl

theorem expectedStates_endTokens (walks : List (String × List String)) :
    expectedStates (endTokens walks) = pushedStates walks := by
  have hchains : chainsFrom [] (endTokens walks) =
      walks.map fun w => circuitTokens w.1 w.2 ++ [endToken w.1] := by
    induction walks with
    | nil => rfl
    | cons w rest ih =>
        rw [endTokens, List.flatMap_cons, List.append_assoc, List.singleton_append,
          chainsFrom_append isTerminal_circuitTokens, List.map_cons]
        exact congrArg _ ih
  rw [expectedStates, hchains, List.flatMap_map]
  exact List.flatMap_congr fun w _ => chainStates_circuit w.1 w.2

end Expected

section Discharge

variable {texts states : List String}

theorem occursIn_iff {needle text : String} :
    occursIn needle text = true ↔ needle.toList <:+: text.toList :=
  decide_eq_true_iff

/-- What was passed over is not contained; what is ahead goes once it is. -/
theorem dischargeFrom_append (text : String) (passed : List String)
    (h : ∀ state ∈ passed, occursIn state text = false) (ahead : List String) :
    dischargeFrom text ahead (passed ++ ahead) =
      passed ++ ahead.filter fun state => !occursIn state text := by
  induction ahead generalizing passed with
  | nil => simp [dischargeFrom]
  | cons state rest ih =>
      cases hstate : occursIn state text with
      | true =>
          have hout : state ∉ passed := by
            intro hmem
            simp [h state hmem] at hstate
          rw [dischargeFrom, if_pos hstate, List.erase_append_right _ hout, List.erase_cons_head,
            ih passed h]
          simp [hstate]
      | false =>
          have hpassed : ∀ s ∈ passed ++ [state], occursIn s text = false := by
            intro s hs
            rcases List.mem_append.mp hs with hs | hs
            · exact h s hs
            · rw [List.mem_singleton.mp hs, hstate]
          have hih := ih (passed ++ [state]) hpassed
          rw [List.append_assoc, List.singleton_append] at hih
          rw [dischargeFrom, if_neg (by simp [hstate]), hih]
          simp [hstate]

theorem dischargeFrom_self (text : String) (states : List String) :
    dischargeFrom text states states = states.filter fun state => !occursIn state text :=
  dischargeFrom_append text [] (by simp) states

/-- One notification discharges every state it contains. -/
theorem remainingStates_eq (texts states : List String) :
    remainingStates texts states =
      states.filter fun state => texts.all fun text => !occursIn state text := by
  induction texts generalizing states with
  | nil => simp [remainingStates]
  | cons text rest ih =>
      have hstep : remainingStates (text :: rest) states =
          remainingStates rest (dischargeFrom text states states) := rfl
      rw [hstep, dischargeFrom_self, ih, List.filter_filter]
      simp [Bool.and_comm]

theorem remainingStates_eq_nil_iff :
    remainingStates texts states = [] ↔
      ∀ state ∈ states, ∃ text ∈ texts, state.toList <:+: text.toList := by
  simp [remainingStates_eq, List.filter_eq_nil_iff, occursIn_iff]

end Discharge

section Contract

variable {walks : List (String × List String)} {texts : List String}

theorem infix_join {text : String} (h : text ∈ texts) :
    text.toList <:+: (String.join texts).toList := by
  induction texts with
  | nil => cases h
  | cons first rest ih =>
      rw [String.join_cons, String.toList_append]
      rcases List.mem_cons.mp h with rfl | h
      · exact (List.prefix_append _ _).isInfix
      · exact (ih h).trans (List.suffix_append _ _).isInfix

/-- The last text pushed along a circuit holds all its tokens. -/
theorem infix_hopState {transport token : String} {circuit : List String}
    (h : token ∈ circuitTokens transport circuit ++ [endToken transport]) :
    token.toList <:+: (hopState transport circuit).toList := by
  induction circuit with
  | nil =>
      obtain rfl : token = endToken transport := by simpa [circuitTokens] using h
      exact List.infix_refl _
  | cons u rest ih =>
      cases rest with
      | nil =>
          obtain rfl : token = endToken transport := by simpa [circuitTokens] using h
          exact List.infix_refl _
      | cons v rest =>
          rw [hopState, String.toList_append, String.toList_append]
          rw [Traversal.circuitTokens_cons_cons] at h
          simp only [List.mem_append, List.mem_singleton] at h
          obtain (hin | rfl) | hend := h
          · exact (ih (by simp [hin])).trans (List.suffix_append _ _).isInfix
          · exact ((List.prefix_append _ _).trans (List.prefix_append _ _)).isInfix
          · exact (ih (by simp [hend])).trans (List.suffix_append _ _).isInfix

theorem hopState_mem_pushedStates {w : String × List String} (h : w ∈ walks) :
    hopState w.1 w.2 ∈ pushedStates walks :=
  List.mem_flatMap.mpr ⟨w, h, List.mem_of_getLast? (hopStates_getLast? w.1 w.2)⟩

/-- The check accepts exactly when every state turns up somewhere. -/
theorem verifyPushNotification_iff :
    verifyPushNotification texts (endTokens walks) = true ↔
      ∀ state ∈ pushedStates walks, ∃ text ∈ texts, state.toList <:+: text.toList := by
  rw [verifyPushNotification, expectedStates_endTokens]
  constructor
  · intro h
    split at h
    · cases h
    · rename_i hempty
      exact remainingStates_eq_nil_iff.mp (by simpa using hempty)
  · intro h
    rw [remainingStates_eq_nil_iff.mpr h, if_neg (by simp), List.all_eq_true]
    intro token htoken
    obtain ⟨w, hw, htoken⟩ := List.mem_flatMap.mp htoken
    obtain ⟨text, htext, hstate⟩ := h _ (hopState_mem_pushedStates hw)
    exact occursIn_iff.mpr ((infix_hopState htoken).trans (hstate.trans (infix_join htext)))

/-- A notification of its own for each state. -/
def PushedPerHop (texts states : List String) : Prop :=
  ∃ assigned : Fin states.length → Fin texts.length, Function.Injective assigned ∧
    ∀ i, (states.get i).toList <:+: (texts.get (assigned i)).toList

/-- The notifications that contain one of the given states. -/
def notificationsOf (texts states : List String) (hops : Finset (Fin states.length)) :
    Finset (Fin texts.length) :=
  hops.biUnion fun i => {j | (states.get i).toList <:+: (texts.get j).toList}

/-- No hops share fewer notifications than there are of them. -/
def EnoughNotifications (texts states : List String) : Prop :=
  ∀ hops : Finset (Fin states.length), hops.card ≤ (notificationsOf texts states hops).card

/-- Each state has a notification of its own exactly when no hops share too few. -/
theorem pushedPerHop_iff {states : List String} :
    PushedPerHop texts states ↔ EnoughNotifications texts states := by
  rw [EnoughNotifications]
  unfold notificationsOf
  rw [Finset.all_card_le_biUnion_card_iff_existsInjective']
  simp [PushedPerHop]

theorem PushedPerHop.length_le {states : List String} (h : PushedPerHop texts states) :
    states.length ≤ texts.length := by
  obtain ⟨assigned, hinjective, -⟩ := h
  simpa using Fintype.card_le_of_injective assigned hinjective

theorem length_hopStates (transport : String) (circuit : List String) :
    (hopStates transport circuit).length = max 1 circuit.length := by
  induction circuit with
  | nil => rfl
  | cons u rest ih =>
      cases rest with
      | nil => rfl
      | cons v rest =>
          rw [hopStates, List.length_append, ih]
          simp

/-- One state is expected where one agent holds on to the instruction. -/
theorem length_pushedStates_le_one_iff :
    (pushedStates walks).length ≤ 1 ↔ walks.length ≤ 1 ∧ ∀ w ∈ walks, w.2.length ≤ 1 := by
  cases walks with
  | nil => simp [pushedStates]
  | cons w rest =>
      cases rest with
      | nil => simp [pushedStates, length_hopStates]
      | cons w' rest =>
          simp only [pushedStates, List.flatMap_cons, List.length_append, length_hopStates,
            List.length_cons]
          omega

/-- One notification that holds every state is accepted. -/
theorem accepts_join (walks : List (String × List String)) :
    verifyPushNotification [String.join (pushedStates walks)] (endTokens walks) = true :=
  verifyPushNotification_iff.mpr fun _ hstate =>
    ⟨_, List.mem_singleton_self _, infix_join hstate⟩

/-- What the check accepts was pushed at every hop exactly when some state turns up
nowhere or no hops share fewer notifications than there are of them. It was for
whatever notifications come in only where there is no hop. -/
theorem push_checked_per_hop_iff (walks : List (String × List String)) (texts : List String) :
    ((verifyPushNotification texts (endTokens walks) = true →
        PushedPerHop texts (pushedStates walks)) ↔
      (∃ state ∈ pushedStates walks, ∀ text ∈ texts, ¬ state.toList <:+: text.toList) ∨
        EnoughNotifications texts (pushedStates walks)) ∧
    ((∀ texts, verifyPushNotification texts (endTokens walks) = true →
        PushedPerHop texts (pushedStates walks)) ↔
      walks.length ≤ 1 ∧ ∀ w ∈ walks, w.2.length ≤ 1) := by
  constructor
  · rw [verifyPushNotification_iff, pushedPerHop_iff]
    constructor
    · intro h
      by_cases hmissing : ∃ state ∈ pushedStates walks, ∀ text ∈ texts,
          ¬ state.toList <:+: text.toList
      · exact Or.inl hmissing
      · push Not at hmissing
        exact Or.inr (h hmissing)
    · rintro (⟨state, hstate, hout⟩ | henough) hall
      · obtain ⟨text, htext, hin⟩ := hall state hstate
        exact absurd hin (hout text htext)
      · exact henough
  · rw [← length_pushedStates_le_one_iff]
    constructor
    · intro h
      exact (h _ (accepts_join walks)).length_le
    · intro hlen texts haccepted
      rw [pushedPerHop_iff]
      intro hops
      have hcard : hops.card ≤ 1 :=
        (Finset.card_le_univ hops).trans (by simpa using hlen)
      obtain rfl | ⟨i, hi⟩ := hops.eq_empty_or_nonempty
      · simp
      · apply hcard.trans
        apply Finset.card_pos.mpr
        obtain ⟨text, htext, hin⟩ :=
          verifyPushNotification_iff.mp haccepted _ (List.get_mem (pushedStates walks) i)
        obtain ⟨j, rfl⟩ := List.get_of_mem htext
        exact ⟨j, Finset.mem_biUnion.mpr ⟨i, hi, by simpa using hin⟩⟩

/-- The last hop's text alone is accepted for a circuit of two hops, and so is the
honest list without its first text. -/
theorem last_push_stands_for_all :
    verifyPushNotification ["[a -> b (grpc)]\n[b -> a (grpc)]\ntraversal-completed:grpc"]
      (endTokens [("grpc", ["a", "b", "a"])]) = true ∧
    verifyPushNotification ((pushedStates [("grpc", ["a", "b", "a"])]).drop 1)
      (endTokens [("grpc", ["a", "b", "a"])]) = true ∧
    ¬ PushedPerHop ["[a -> b (grpc)]\n[b -> a (grpc)]\ntraversal-completed:grpc"]
      (pushedStates [("grpc", ["a", "b", "a"])]) ∧
    ¬ PushedPerHop ((pushedStates [("grpc", ["a", "b", "a"])]).drop 1)
      (pushedStates [("grpc", ["a", "b", "a"])]) :=
  ⟨by decide +kernel, by decide +kernel, fun h => absurd h.length_le (by decide),
    fun h => absurd h.length_le (by decide)⟩

end Contract

end A2aItk.Verification
