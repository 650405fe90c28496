import A2aItk.Python.Joined
import A2aItk.Scenarios.Resolver
import A2aItk.Verification.Traversals
import Mathlib.Algebra.BigOperators.Ring.List

/-!
# Which traversals can pass without having happened

A scenario that passes should have been asked for hops, and its reply should
trace each of them as often as it was asked for. It does where a transport is
asked for, none of them twice, and no hop is asked for twice or the hops are pushed.
-/

namespace A2aItk.Verification

open Python Scenarios
open Traversal Multigraph

/-- The reply traces every hop of a scenario's edges, over every transport that
was asked for, as often as the two were asked for. -/
def TracesEveryHop (s : ResolvedScenario) (pairs : List (String × String)) (text : String) :
    Prop :=
  ∀ t u v, (s.protocols.getD allTransports).count t * pairs.count (u, v) ≤
    occurrences (traceToken u v t).toList text.toList

/-- What a scenario that passes shows. -/
structure Traversed (x : Exchange) (s : ResolvedScenario) (agents : AgentTable)
    (tokens : List String) (reply : Reply) (text : String)
    (parsed : Option (List (String × String))) : Prop where
  read : traverse x s agents = .ok (tokens, reply)
  said : reply.text = .ok text
  edges : parseGivenEdges s.sdks s.edges = .ok parsed
  expects : tokens ≠ []
  traces : TracesEveryHop s (targetEdges s.sdks parsed) text

/-- Whatever comes back, the scenario does not pass without having happened. -/
def NeverVacuous (s : ResolvedScenario) (agents : AgentTable) : Prop :=
  ∀ x, executeSingleItkTest x s agents = .ok true →
    ∃ tokens reply text parsed, Traversed x s agents tokens reply text parsed

/-- A transport is asked for, and none of them twice for the same hop; no hop is asked for twice
unless it is pushed. -/
structure AsksOnce (s : ResolvedScenario) : Prop where
  transports : s.protocols ≠ some []
  distinct : (s.protocols.getD allTransports).Nodup ∨
    ∀ parsed, parseGivenEdges s.sdks s.edges = .ok parsed → targetEdges s.sdks parsed = []
  hops : isPush s = true ∨ ∀ parsed, parseGivenEdges s.sdks s.edges = .ok parsed →
    (targetEdges s.sdks parsed).Nodup

section Suites

variable {s : ResolvedScenario} {agents : AgentTable} {root : String} {rest : List String}
  {protocols edges : Option (List String)} {options : HopOptions} {instruction : Instruction}
  {tokens : List String}

/-- The expected tokens are those of the circuits of the scenario's edges. -/
theorem tokens_of_suite
    (h : createTestSuite (root :: rest) agents edges protocols options =
      .ok (instruction, tokens)) :
    ∃ parsed circuits, parseGivenEdges (root :: rest) edges = .ok parsed ∧
      (protocols.getD allTransports ≠ [] →
        EulerCircuits (targetEdges (root :: rest) parsed : Multiset (String × String)) root
          circuits) ∧
      tokens = endTokens (walks (protocols.getD allTransports) circuits) := by
  obtain ⟨parsed, parts, hparsed, -, -⟩ := createTestSuite_eq_ok_iff.mp h
  obtain ⟨circuits, parts, hcircuits, hparts, hsuite⟩ := createTestSuite_circuits hparsed h
  refine ⟨parsed, circuits, hparsed, fun hne => ?_, ?_⟩
  · obtain ⟨-, found, hfound, hspec⟩ | ⟨-, e, he, -⟩ :=
      eulerTraversal_cases root (root :: rest) parsed
    · obtain rfl := Except.ok.inj (hfound.symm.trans (hcircuits hne))
      exact hspec
    · cases he.symm.trans (hcircuits hne)
  · obtain ⟨-, rfl⟩ := Prod.mk.inj hsuite
    exact tokens_of_partOf hparts

theorem getD_ne_nil (h : protocols ≠ some []) : protocols.getD allTransports ≠ [] := by
  cases protocols with
  | none => decide
  | some ts => exact fun hnil => h (congrArg some hnil)

theorem traceToken_ne_nil (u v t : String) : (traceToken u v t).toList ≠ [] := by
  simp [traceToken, toString, String.toList_append]

/-- Every hop of a circuit is expected. -/
theorem traceToken_mem_endTokens {ws : List (String × List String)} {t u v : String}
    {circuit : List String} (hw : (t, circuit) ∈ ws) (hhop : (u, v) ∈ hops circuit) :
    traceToken u v t ∈ endTokens ws := by
  refine List.mem_flatMap.mpr ⟨_, hw, List.mem_append_left _ ?_⟩
  rw [circuitTokens, List.mem_reverse, List.mem_map]
  exact ⟨(u, v), hhop, rfl⟩

theorem endTokens_ne_nil {ws : List (String × List String)} (h : ws ≠ []) :
    endTokens ws ≠ [] := by
  cases ws with
  | nil => exact absurd rfl h
  | cons w ws => simp [endTokens]

/-- The last text pushed along a circuit traces every hop as often as it is made. -/
theorem count_hops_le (transport : String) (circuit : List String) (u v : String) :
    (hops circuit).count (u, v) ≤
      occurrences (traceToken u v transport).toList (hopState transport circuit).toList := by
  induction circuit with
  | nil => simp
  | cons a rest ih =>
      cases rest with
      | nil => simp
      | cons b rest =>
          have hsplit := occurrences_append_le (traceToken u v transport).toList
            (traceToken a b transport ++ "\n").toList (hopState transport (b :: rest)).toList
          rw [hopState, hops_cons_cons, List.count_cons, String.toList_append]
          have hhere : (if ((a, b) == (u, v)) = true then 1 else 0) ≤
              occurrences (traceToken u v transport).toList
                (traceToken a b transport ++ "\n").toList := by
            split
            · rename_i heq
              obtain ⟨rfl, rfl⟩ := Prod.mk.inj (eq_of_beq heq)
              apply one_le_occurrences (traceToken_ne_nil a b transport)
              rw [String.toList_append]
              exact (List.prefix_append _ _).isInfix
            · exact Nat.zero_le _
          omega

end Suites

section Sufficient

variable {s : ResolvedScenario} {agents : AgentTable} {x : Exchange} {root : String}
  {rest tokens : List String} {circuits : List (List String)} {pairs : List (String × String)}

/-- All parallel hops of a graph are made along one circuit. -/
theorem count_eq_of_mem (hspec : EulerCircuits (pairs : Multiset (String × String)) root circuits)
    {circuit : List String} (hc : circuit ∈ circuits) {u v : String}
    (hhop : (u, v) ∈ hops circuit) : pairs.count (u, v) = (hops circuit).count (u, v) := by
  have hcovers := hspec.covers
  have happart := hspec.apart
  rw [← (Multiset.coe_eq_coe.mp hcovers).count_eq]
  clear hcovers hspec
  induction circuits with
  | nil => cases hc
  | cons first others ih =>
      obtain ⟨hfirst, hothers⟩ := List.pairwise_cons.mp happart
      rw [List.flatMap_cons, List.count_append]
      have hu := (mem_of_mem_hops hhop).1
      rcases List.mem_cons.mp hc with rfl | hc
      · have hzero : (others.flatMap hops).count (u, v) = 0 := by
          rw [List.count_eq_zero, List.mem_flatMap]
          rintro ⟨d, hd, hin⟩
          exact hfirst d hd u hu (mem_of_mem_hops hin).1
        omega
      · have hzero : (hops first).count (u, v) = 0 := by
          rw [List.count_eq_zero]
          intro hin
          exact hfirst circuit hc u (mem_of_mem_hops hin).1 hu
        rw [hzero, Nat.zero_add]
        exact ih hc hothers

/-- Where no transport is asked for twice, it is enough to trace every hop over each. -/
theorem tracesEveryHop_of_distinct {text : String}
    (hdistinct : (s.protocols.getD allTransports).Nodup ∨ pairs = [])
    (h : ∀ t ∈ s.protocols.getD allTransports, ∀ u v, (u, v) ∈ pairs →
      pairs.count (u, v) ≤ occurrences (traceToken u v t).toList text.toList) :
    TracesEveryHop s pairs text := by
  intro t u v
  by_cases hin : t ∈ s.protocols.getD allTransports ∧ (u, v) ∈ pairs
  · have hnodup := hdistinct.resolve_right (List.ne_nil_of_mem hin.2)
    rw [List.count_eq_one_of_mem hnodup hin.1, Nat.one_mul]
    exact h t hin.1 u v hin.2
  · rw [not_and_or, ← List.count_eq_zero, ← List.count_eq_zero] at hin
    rw [Nat.mul_eq_zero.mpr hin]
    exact Nat.zero_le _

/-- A hop that is pushed leaves its trace in the last text of its circuit. -/
theorem tracesEveryHop_of_pushed {texts : List String}
    (hdistinct : (s.protocols.getD allTransports).Nodup ∨ pairs = [])
    (hspec : EulerCircuits (pairs : Multiset (String × String)) root circuits)
    (h : verifyPushNotification texts
      (endTokens (walks (s.protocols.getD allTransports) circuits)) = true) :
    TracesEveryHop s pairs (String.join texts) := by
  apply tracesEveryHop_of_distinct hdistinct
  intro t ht u v hin
  obtain ⟨circuit, hc, hhop⟩ := hspec.mem_edges_iff.mp (Multiset.mem_coe.mpr hin)
  obtain ⟨text, htext, hstate⟩ := verifyPushNotification_iff.mp h _
    (hopState_mem_pushedStates (mem_walks.mpr ⟨ht, hc⟩))
  calc pairs.count (u, v) = (hops circuit).count (u, v) := count_eq_of_mem hspec hc hhop
    _ ≤ occurrences (traceToken u v t).toList (hopState t circuit).toList :=
      count_hops_le t circuit u v
    _ ≤ occurrences (traceToken u v t).toList (String.join texts).toList :=
      occurrences_mono (hstate.trans (infix_join htext))

/-- A hop that is asked for once is traced where its token occurs at all. -/
theorem tracesEveryHop_of_nodup {text : String}
    (hdistinct : (s.protocols.getD allTransports).Nodup ∨ pairs = [])
    (hspec : EulerCircuits (pairs : Multiset (String × String)) root circuits)
    (hnodup : pairs.Nodup)
    (h : ∀ token ∈ endTokens (walks (s.protocols.getD allTransports) circuits),
      token.toList <:+: text.toList) : TracesEveryHop s pairs text := by
  apply tracesEveryHop_of_distinct hdistinct
  intro t ht u v hin
  obtain ⟨circuit, hc, hhop⟩ := hspec.mem_edges_iff.mp (Multiset.mem_coe.mpr hin)
  have htoken := traceToken_mem_endTokens (mem_walks.mpr ⟨ht, hc⟩) hhop
  exact (List.nodup_iff_count_le_one.mp hnodup _).trans
    (one_le_occurrences (traceToken_ne_nil u v t) (h _ htoken))

theorem walks_ne_nil {transports : List String} (hts : transports ≠ []) (hcs : circuits ≠ []) :
    walks transports circuits ≠ [] := by
  obtain ⟨t, ht⟩ := List.exists_mem_of_ne_nil _ hts
  obtain ⟨c, hc⟩ := List.exists_mem_of_ne_nil _ hcs
  exact List.ne_nil_of_mem (mem_walks.mpr ⟨ht, hc⟩)

/-- A scenario that asks for each hop once does not pass without having happened. -/
theorem AsksOnce.neverVacuous (hasks : AsksOnce s) (agents : AgentTable) :
    NeverVacuous s agents := by
  intro x hpassed
  obtain ⟨tokens, reply, hread, hverdict⟩ := executeSingleItkTest_eq_true hpassed
  obtain ⟨root, rest, receiver, instruction, hsdks, hsuite, hpush, hresult⟩ :=
    traverse_reply hread
  rw [hsdks] at hsuite
  obtain ⟨parsed, circuits, hparsed, hcircuits, rfl⟩ := tokens_of_suite hsuite
  rw [← hsdks] at hparsed hcircuits
  have hts := getD_ne_nil hasks.transports
  have hspec := hcircuits hts
  have hne := endTokens_ne_nil (walks_ne_nil hts hspec.ne_nil)
  have hdistinct := hasks.distinct.imp_right fun hnone => hnone parsed hparsed
  cases hbehavior : isPush s with
  | true =>
      obtain ⟨texts, rfl⟩ := hpush hbehavior
      refine ⟨_, _, String.join texts, parsed, hread, rfl, hparsed, hne, ?_⟩
      exact tracesEveryHop_of_pushed hdistinct hspec (Except.ok.inj hverdict)
  | false =>
      obtain ⟨data, rfl⟩ := hresult hbehavior
      rw [verdict] at hverdict
      split at hverdict
      · obtain ⟨text, htext, htokens⟩ := verifySendMessage_eq_true_iff.mp hverdict
        have hnodup := (hasks.hops.resolve_left (by simp [hbehavior])) parsed hparsed
        exact ⟨_, _, text, parsed, hread, htext, hparsed, hne,
          tracesEveryHop_of_nodup hdistinct hspec hnodup htokens⟩
      · cases hverdict

end Sufficient

section Names

variable {u v t : String} {ws : List (String × List String)} {tokens : List String}

/-- A name that does not look like a part of a trace. -/
def Plain (name : String) : Prop := '[' ∉ name.toList ∧ ']' ∉ name.toList

instance (name : String) : Decidable (Plain name) := inferInstanceAs (Decidable (_ ∧ _))

/-- What stands between the brackets of a trace. -/
def traceBody (u v t : String) : List Char :=
  u.toList ++ " -> ".toList ++ v.toList ++ " (".toList ++ t.toList ++ [')']

theorem toList_traceToken (u v t : String) :
    (traceToken u v t).toList = '[' :: (traceBody u v t ++ [']']) := by
  simp [traceToken, traceBody, toString, String.toList_append]

theorem toList_endToken (t : String) :
    (endToken t).toList = "traversal-completed:".toList ++ t.toList := by
  simp [endToken, endOfTraversalToken, toString, String.toList_append]

theorem notMem_traceBody {c : Char} (hc : c ∉ " -> ()".toList) (hu : c ∉ u.toList)
    (hv : c ∉ v.toList) (ht : c ∉ t.toList) : c ∉ traceBody u v t := by
  have hsep : c ∉ " -> ".toList ∧ c ∉ " (".toList ∧ c ≠ ')' := by
    simp only [String.reduceToList, List.mem_cons, List.not_mem_nil, or_false, not_or] at hc ⊢
    tauto
  simp only [traceBody, List.mem_append, List.mem_singleton, hu, hv, ht, hsep, or_self,
    not_false_eq_true]

/-- A token of plain names. -/
def PlainToken (token : String) : Prop :=
  (∃ u v t, Plain u ∧ Plain v ∧ Plain t ∧ token = traceToken u v t) ∨
    ∃ t, Plain t ∧ token = endToken t

theorem count_bracket {token : String} (h : PlainToken token) :
    token.toList.count '[' = if isTerminal token then 0 else 1 := by
  obtain ⟨u, v, t, hu, hv, ht, rfl⟩ | ⟨t, ht, rfl⟩ := h
  · have hout := notMem_traceBody (by decide) hu.1 hv.1 ht.1
    rw [toList_traceToken, isTerminal_traceToken, List.count_cons, List.count_append,
      List.count_eq_zero.mpr hout]
    rfl
  · rw [toList_endToken, isTerminal_endToken, List.count_append,
      List.count_eq_zero.mpr ht.1]
    rfl

theorem count_bracket_join (h : ∀ token ∈ tokens, PlainToken token) :
    (String.join tokens).toList.count '[' = (tokens.filter (!isTerminal ·)).length := by
  induction tokens with
  | nil => rfl
  | cons token rest ih =>
      rw [String.join_cons, String.toList_append, List.count_append,
        count_bracket (h token (by simp)), ih fun x hx => h x (List.mem_cons_of_mem _ hx)]
      cases hterminal : isTerminal token with
      | true => simp [hterminal]
      | false =>
          simp [hterminal]
          omega

/-- Two traces of plain names that fit the same place are the same. -/
theorem traceToken_fits {n m : String} (hn : PlainToken n) (hm : PlainToken m)
    (hn' : isTerminal n = false) (hm' : isTerminal m = false) {l : List Char}
    (hln : n.toList <+: l) (hlm : m.toList <+: l) : n = m := by
  have hbody {token : String} (h : PlainToken token) (hterminal : isTerminal token = false) :
      ∃ body, token.toList = '[' :: (body ++ [']']) ∧ ']' ∉ body := by
    obtain ⟨u, v, t, hu, hv, ht, rfl⟩ | ⟨t, -, rfl⟩ := h
    · exact ⟨_, toList_traceToken u v t, notMem_traceBody (by decide) hu.2 hv.2 ht.2⟩
    · rw [isTerminal_endToken] at hterminal
      cases hterminal
  obtain ⟨b, hb, hbout⟩ := hbody hn hn'
  obtain ⟨b', hb', hbout'⟩ := hbody hm hm'
  obtain ⟨r, rfl⟩ := hln
  obtain ⟨r', hr'⟩ := hlm
  rw [hb, hb'] at hr'
  simp only [List.cons_append, List.append_assoc, List.nil_append, List.cons.injEq,
    true_and] at hr'
  have hbodies : b' = b := by
    have hl := congrArg (List.takeWhile (· ≠ ']')) hr'
    have hwalk {c r : List Char} (hc : ']' ∉ c) :
        (c ++ ']' :: r).takeWhile (· ≠ ']') = c := by
      rw [List.takeWhile_append_of_pos]
      · simp
      · intro d hd
        simp only [ne_eq, decide_not, Bool.not_eq_eq_eq_not, Bool.not_true, decide_eq_false_iff_not]
        rintro rfl
        exact hc hd
    rwa [hwalk hbout', hwalk hbout] at hl
  apply String.toList_inj.mp
  rw [hb, hb', hbodies]

/-- A trace tells its hop and its transport where the agents' names have no blank. -/
theorem traceToken_inj {u' v' t' : String} (hu : ' ' ∉ u.toList) (hu' : ' ' ∉ u'.toList)
    (hv : ' ' ∉ v.toList) (hv' : ' ' ∉ v'.toList) (h : traceToken u v t = traceToken u' v' t') :
    u = u' ∧ v = v' ∧ t = t' := by
  have hlists := String.toList_inj.mpr h
  rw [toList_traceToken, toList_traceToken, List.cons.injEq, List.append_left_inj] at hlists
  obtain ⟨-, hbody⟩ := hlists
  simp only [traceBody, List.append_assoc] at hbody
  obtain ⟨hfirst, hrest⟩ := append_cons_inj hu hu' hbody
  have hrest' := (List.append_right_inj "-> ".toList).mp hrest
  obtain ⟨hsecond, hlast⟩ := append_cons_inj hv hv' hrest'
  have hthird := (List.append_left_inj [')']).mp ((List.append_right_inj ['(']).mp hlast)
  exact ⟨String.toList_inj.mp hfirst, String.toList_inj.mp hsecond, String.toList_inj.mp hthird⟩

/-- A text with each of the tokens once. -/
def onceEach (tokens : List String) : String := "." ++ String.join tokens.dedup ++ "."

theorem infix_onceEach {token : String} (h : token ∈ tokens) :
    token.toList <:+: (onceEach tokens).toList := by
  rw [onceEach, String.toList_append, String.toList_append]
  exact (infix_join (List.mem_dedup.mpr h)).trans
    ((List.suffix_append _ _).isInfix.trans (List.prefix_append _ _).isInfix)

/-- No trace occurs in it twice. -/
theorem occurrences_onceEach_le (h : ∀ token ∈ tokens, PlainToken token) {token : String}
    (hin : token ∈ tokens) (htrace : isTerminal token = false) :
    occurrences token.toList (onceEach tokens).toList ≤ 1 := by
  have hdedup : ∀ x ∈ tokens.dedup, PlainToken x := fun x hx => h x (List.mem_dedup.mp hx)
  have htraces : ∀ n ∈ (tokens.dedup.filter (!isTerminal ·)).map String.toList,
      ∃ x ∈ tokens, PlainToken x ∧ isTerminal x = false ∧ n = x.toList := by
    intro n hn
    obtain ⟨x, hx, rfl⟩ := List.mem_map.mp hn
    obtain ⟨hx, hterminal⟩ := List.mem_filter.mp hx
    exact ⟨x, List.mem_dedup.mp hx, hdedup x hx, by simpa using hterminal, rfl⟩
  have hnodup : ((tokens.dedup.filter (!isTerminal ·)).map String.toList).Nodup :=
    ((List.nodup_dedup tokens).filter _).map fun _ _ => String.toList_inj.mp
  have hmark : ∀ n ∈ (tokens.dedup.filter (!isTerminal ·)).map String.toList,
      ∃ rest, n = '[' :: rest := by
    intro n hn
    obtain ⟨x, -, ⟨u, v, t, -, -, -, rfl⟩ | ⟨t, -, rfl⟩, hterminal, rfl⟩ := htraces n hn
    · exact ⟨_, toList_traceToken u v t⟩
    · rw [isTerminal_endToken] at hterminal
      cases hterminal
  have hfree : ∀ n ∈ (tokens.dedup.filter (!isTerminal ·)).map String.toList,
      ∀ m ∈ (tokens.dedup.filter (!isTerminal ·)).map String.toList,
      ∀ l : List Char, n <+: l → m <+: l → n = m := by
    intro n hn m hm l hln hlm
    obtain ⟨x, -, hx, hx', rfl⟩ := htraces n hn
    obtain ⟨y, -, hy, hy', rfl⟩ := htraces m hm
    rw [traceToken_fits hx hy hx' hy' hln hlm]
  have hcount : (onceEach tokens).toList.count '[' ≤
      ((tokens.dedup.filter (!isTerminal ·)).map String.toList).length := by
    rw [onceEach, String.toList_append, String.toList_append, List.count_append,
      List.count_append, count_bracket_join hdedup]
    simp
  have honce : ∀ n ∈ (tokens.dedup.filter (!isTerminal ·)).map String.toList,
      1 ≤ occurrences n (onceEach tokens).toList := by
    intro n hn
    obtain ⟨rest, hrest⟩ := hmark n hn
    obtain ⟨x, hx, -, -, rfl⟩ := htraces n hn
    exact one_le_occurrences (by simp [hrest]) (infix_onceEach hx)
  apply occurrences_le_one hnodup hmark hfree hcount honce
  exact List.mem_map_of_mem (List.mem_filter.mpr ⟨List.mem_dedup.mpr hin, by simp [htrace]⟩)

end Names

section Replying

variable {s : ResolvedScenario} {agents : AgentTable} {text : String} {tokens : List String}

/-- A message with one text. -/
def messageWith (text : String) : Value :=
  .object [("role", .str "ROLE_AGENT"), ("parts", .list [.object [("text", .str text)]])]

def statusUpdateWith (text : String) : Value :=
  .object [("statusUpdate", .object [("status", .object [("message", messageWith text)])])]

/-- Agents that answer with one text, whatever they are sent. -/
def replying (text : String) : Exchange where
  notificationServer := .ok ""
  post := fun _ => .ok ⟨200, some (.object [("result", messageWith text)])⟩
  stream := fun sent =>
    ⟨[some (.object [("result",
      if sent.isV0 then messageWith text else statusUpdateWith text)])], none⟩
  notifications := none

/-- Text that neither starts nor ends with white space, and is not empty. -/
def Trimmed (text : String) : Prop := text ≠ "" ∧ Text.strip text.toList = text.toList

theorem truthy_str (h : text ≠ "") : (Value.str text).truthy = true := by
  simp [Value.truthy, Scalar.truthy, h]

theorem extractTextFromParts_single (h : text ≠ "") (fields : List (Scalar × Value)) 
    (hparts : Value.lookup (.str "parts") fields =
      some (.list [.object [("text", .str text)]])) :
    extractTextFromParts (.dict fields) = .ok [.str text] := by
  have htext : Value.lookup (.str "text") [(.str "text", .str text)] = some (.str text) := rfl
  simp [extractTextFromParts, Value.hasKey, Value.item, hparts, Value.iterate, Value.object,
    htext, truthy_str h]

theorem extractResponseText_single {result data : Value} (h : Trimmed text)
    (hmessage : messageOf result = .ok data) (htruthy : data.truthy = true)
    (htext : extractTextFromParts data = .ok [.str text]) (hhistory : historyOf result = .ok []) :
    extractResponseText result = .ok text := by
  have htexts : Value.texts ([.str text] ++ ([] : List (List Value)).flatten) = .ok [text] :=
    Value.texts_str [text]
  simp only [extractResponseText, hmessage, htruthy, htext, hhistory, ok_bind, if_true,
    List.mapM_nil, pure_eq_ok, htexts]
  simp [String.join_cons, h.2]

theorem extract_messageWith (h : Trimmed text) :
    extractResponseText (messageWith text) = .ok text :=
  extractResponseText_single h rfl rfl (extractTextFromParts_single h.1 _ rfl) rfl

/-- What is read of a stream is one text again. -/
theorem extract_streamed (h : Trimmed text) :
    extractResponseText (.object [("status", .object [("message", .object [("parts",
      .list [.object [("text", .str text)]])])])]) = .ok text :=
  extractResponseText_single h rfl rfl (extractTextFromParts_single h.1 _ rfl) rfl

theorem readV10Notif_statusUpdateWith (h : text ≠ "") :
    readV10Notif (statusUpdateWith text) = .ok [.str text] := by
  change extractTextFromParts (messageWith text) = _
  exact extractTextFromParts_single h _ rfl

theorem eventText_replying (h : Trimmed text) (isV0 : Bool) :
    eventText isV0 (.object [("result",
      if isV0 then messageWith text else statusUpdateWith text)]) = .ok (some text) := by
  cases isV0 with
  | true =>
      change (extractResponseText (messageWith text)).map some = _
      rw [extract_messageWith h]
      rfl
  | false =>
      change (readV10Notif (statusUpdateWith text) >>= Value.texts).map
        (fun texts => some ("\n".intercalate texts)) = _
      rw [readV10Notif_statusUpdateWith h.1]
      rfl

theorem readSyncResponse_replying (text : String) :
    readSyncResponse ⟨200, some (.object [("result", messageWith text)])⟩ =
      .ok (messageWith text) := by
  have hno : Value.hasKey "error" (.object [("result", messageWith text)]) = .ok false := rfl
  have hresult : (Value.object [("result", messageWith text)]).getOr "result" (.dict []) =
      .ok (messageWith text) := rfl
  simp [readSyncResponse, hno, hresult]

theorem readStreamResponse_replying (h : Trimmed text) (isV0 : Bool)
    (complete : String → Bool) :
    readStreamResponse isV0 complete ⟨[some (.object [("result",
        if isV0 then messageWith text else statusUpdateWith text)])], none⟩ =
      .ok (.object [("status", .object [("message", .object [("parts",
        .list [.object [("text", .str text)]])])])]) := by
  have hne : text.isEmpty = false := by simp [h.1]
  have hcollect : ∃ done, collectStream isV0 complete [some (.object [("result",
      if isV0 then messageWith text else statusUpdateWith text)])] [] = ([text], done) := by
    simp only [collectStream, Option.map_some, eventText_replying h, hne]
    simp only [Bool.false_eq_true, if_false, List.nil_append]
    split
    · exact ⟨true, rfl⟩
    · exact ⟨false, rfl⟩
  obtain ⟨done, hcollect⟩ := hcollect
  rw [readStreamResponse, hcollect]
  cases done <;> rfl

/-- Whatever they are sent, the text comes back. -/
theorem readResult_replying (h : Trimmed text) (sent : Request) (tokens : List String) :
    ∃ data, readResult (replying text) sent tokens = .ok data ∧
      extractResponseText data = .ok text := by
  unfold readResult
  split
  · exact ⟨_, readStreamResponse_replying h sent.isV0 _, extract_streamed h⟩
  · exact ⟨_, readSyncResponse_replying text, extract_messageWith h⟩

end Replying

section Pushing

variable {protocols : List String} {circuits : List (List String)} {t root : String}
  {pairs : List (String × String)}

theorem sum_flatMap {α : Type} (f : α → List ℕ) (l : List α) :
    (l.flatMap f).sum = (l.map fun a => (f a).sum).sum := by
  rw [List.flatMap_def, List.sum_flatten, List.map_map]
  rfl

theorem count_join (c : Char) (texts : List String) :
    (String.join texts).toList.count c = (texts.map fun text => text.toList.count c).sum := by
  induction texts with
  | nil => rfl
  | cons first rest ih =>
      rw [String.join_cons, String.toList_append, List.count_append, ih, List.map_cons,
        List.sum_cons]

/-- What is pushed on the way is part of what is pushed last. -/
theorem infix_of_mem_hopStates {state : String} {circuit : List String}
    (h : state ∈ hopStates t circuit) : state.toList <:+: (hopState t circuit).toList := by
  induction circuit with
  | nil =>
      rw [List.mem_singleton.mp h]
      exact List.infix_refl _
  | cons u rest ih =>
      cases rest with
      | nil =>
          rw [List.mem_singleton.mp h]
          exact List.infix_refl _
      | cons v rest =>
          obtain hearlier | hlast := List.mem_append.mp h
          · rw [hopState, String.toList_append]
            exact (ih hearlier).trans (List.suffix_append _ _).isInfix
          · rw [List.mem_singleton.mp hlast]

/-- The last texts of the circuits, over each transport once. -/
def pushedText (protocols : List String) (circuits : List (List String)) : String :=
  String.join ((walks protocols.dedup circuits).map fun w => hopState w.1 w.2)

/-- One notification with them is enough, however often a transport was asked for. -/
theorem verify_pushedText :
    verifyPushNotification [pushedText protocols circuits] (endTokens (walks protocols circuits)) =
      true := by
  rw [verifyPushNotification_iff]
  intro state hstate
  obtain ⟨⟨t, circuit⟩, hw, hin⟩ := List.mem_flatMap.mp hstate
  obtain ⟨ht, hc⟩ := mem_walks.mp hw
  refine ⟨_, List.mem_singleton_self _, (infix_of_mem_hopStates hin).trans (infix_join ?_)⟩
  exact List.mem_map.mpr ⟨(t, circuit), mem_walks.mpr ⟨List.mem_dedup.mpr ht, hc⟩, rfl⟩

theorem count_bracket_hopState {circuit : List String} (ht : Plain t)
    (h : ∀ e ∈ hops circuit, Plain e.1 ∧ Plain e.2) :
    (hopState t circuit).toList.count '[' = (hops circuit).length := by
  have hend : (endToken t).toList.count '[' = 0 := by
    rw [count_bracket (.inr ⟨t, ht, rfl⟩), isTerminal_endToken]
    rfl
  induction circuit with
  | nil => exact hend
  | cons u rest ih =>
      cases rest with
      | nil => exact hend
      | cons v rest =>
          rw [hops_cons_cons] at h ⊢
          obtain ⟨⟨hu, hv⟩, hrest⟩ := List.forall_mem_cons.mp h
          have hhere : (traceToken u v t).toList.count '[' = 1 := by
            rw [count_bracket (.inl ⟨u, v, t, hu, hv, ht, rfl⟩), isTerminal_traceToken]
            rfl
          have hbreak : "\n".toList.count '[' = 0 := by decide
          rw [hopState, String.toList_append, String.toList_append, List.count_append,
            List.count_append, ih hrest, hhere, hbreak, List.length_cons]
          omega

theorem count_bracket_pushedText
    (hspec : EulerCircuits (pairs : Multiset (String × String)) root circuits)
    (hpairs : ∀ e ∈ pairs, Plain e.1 ∧ Plain e.2) (hprotocols : ∀ t ∈ protocols, Plain t) :
    (pushedText protocols circuits).toList.count '[' = protocols.dedup.length * pairs.length := by
  have hlength : (circuits.map fun circuit => (hops circuit).length).sum = pairs.length := by
    rw [← List.length_flatMap]
    exact (Multiset.coe_eq_coe.mp hspec.covers).length_eq
  have hone : ∀ t ∈ protocols.dedup, (circuits.map fun circuit =>
      (hopState t circuit).toList.count '[').sum = pairs.length := by
    intro t ht
    rw [← hlength]
    refine congrArg List.sum (List.map_congr_left fun circuit hc => ?_)
    apply count_bracket_hopState (hprotocols t (List.mem_dedup.mp ht))
    exact fun e he => hpairs e (Multiset.mem_coe.mp (hspec.mem_edges_iff.mpr ⟨circuit, hc, he⟩))
  rw [pushedText, count_join, List.map_map, walks, List.map_flatMap, sum_flatMap]
  have hsums : (protocols.dedup.map fun t => (((circuits.map fun circuit => (t, circuit)).map
      ((fun text => text.toList.count '[') ∘ fun w => hopState w.1 w.2))).sum) =
      protocols.dedup.map fun _ => pairs.length := by
    refine List.map_congr_left fun t ht => ?_
    rw [List.map_map]
    exact hone t ht
  rw [hsums, List.map_const', List.sum_replicate_nat]

/-- The traces of the hops of some pairs, over some transports. -/
def hopTraces (protocols : List String) (pairs : List (String × String)) : List String :=
  protocols.dedup.flatMap fun t => pairs.dedup.map fun e => traceToken e.1 e.2 t

theorem mem_hopTraces {token : String} (h : token ∈ hopTraces protocols pairs) :
    ∃ e ∈ pairs, ∃ t ∈ protocols, token = traceToken e.1 e.2 t := by
  obtain ⟨t, ht, htoken⟩ := List.mem_flatMap.mp h
  obtain ⟨e, he, rfl⟩ := List.mem_map.mp htoken
  exact ⟨e, List.mem_dedup.mp he, t, List.mem_dedup.mp ht, rfl⟩

/-- Names without blanks give different hops different traces. -/
theorem nodup_hopTraces
    (hblanks : ∀ e ∈ pairs, ' ' ∉ e.1.toList ∧ ' ' ∉ e.2.toList) :
    (hopTraces protocols pairs).Nodup := by
  have hinj : ∀ e ∈ pairs.dedup, ∀ e' ∈ pairs.dedup, ∀ t t',
      traceToken e.1 e.2 t = traceToken e'.1 e'.2 t' → e = e' ∧ t = t' := by
    intro e he e' he' t t' heq
    rw [List.mem_dedup] at he he'
    obtain ⟨hu, hv, ht⟩ := traceToken_inj (hblanks e he).1 (hblanks e' he').1 (hblanks e he).2
      (hblanks e' he').2 heq
    exact ⟨Prod.ext hu hv, ht⟩
  rw [hopTraces, List.nodup_flatMap]
  constructor
  · intro t _
    refine List.Nodup.map_on (fun e he e' he' heq => ?_) (List.nodup_dedup pairs)
    exact (hinj e he e' he' t t heq).1
  · refine (List.nodup_dedup protocols).imp fun {t t'} htt => ?_
    change List.Disjoint _ _
    rw [List.disjoint_left]
    intro token htoken htoken'
    obtain ⟨e, he, rfl⟩ := List.mem_map.mp htoken
    obtain ⟨e', he', heq⟩ := List.mem_map.mp htoken'
    exact htt (hinj e he e' he' t t' heq.symm).2

/-- What is asked for, hop by hop and transport by transport. -/
theorem sum_asked (protocols : List String) (pairs : List (String × String)) :
    (protocols.dedup.map fun t =>
        (pairs.dedup.map fun e => protocols.count t * pairs.count e).sum).sum =
      protocols.length * pairs.length := by
  have hcounted : (pairs.dedup.map fun e => pairs.count e).sum = pairs.length := by
    rw [← List.sum_map_count_dedup_eq_length pairs,
      lawful_beq_subsingleton (instBEqProd : BEq (String × String)) instBEqOfDecidableEq]
  simp only [List.sum_map_mul_left, List.sum_map_mul_right, hcounted,
    List.sum_map_count_dedup_eq_length]

/-- A text that traces every hop as often as asked for has as many brackets, and this one has them
for each transport once. -/
theorem nodup_of_traces (hspec : EulerCircuits (pairs : Multiset (String × String)) root circuits)
    (hpairs : ∀ e ∈ pairs, Plain e.1 ∧ Plain e.2) (hprotocols : ∀ t ∈ protocols, Plain t)
    (hblanks : ∀ e ∈ pairs, ' ' ∉ e.1.toList ∧ ' ' ∉ e.2.toList) (hne : pairs ≠ [])
    (h : ∀ t u v, protocols.count t * pairs.count (u, v) ≤
      occurrences (traceToken u v t).toList (pushedText protocols circuits).toList) :
    protocols.Nodup := by
  have htraces : ∀ n ∈ (hopTraces protocols pairs).map String.toList,
      ∃ u v t, Plain u ∧ Plain v ∧ Plain t ∧ n = (traceToken u v t).toList := by
    intro n hn
    obtain ⟨token, htoken, rfl⟩ := List.mem_map.mp hn
    obtain ⟨e, he, t, ht, rfl⟩ := mem_hopTraces htoken
    obtain ⟨hu, hv⟩ := hpairs e he
    exact ⟨e.1, e.2, t, hu, hv, hprotocols t ht, rfl⟩
  have hnodup : ((hopTraces protocols pairs).map String.toList).Nodup :=
    (nodup_hopTraces hblanks).map fun _ _ => String.toList_inj.mp
  have hmark : ∀ n ∈ (hopTraces protocols pairs).map String.toList, ∃ rest, n = '[' :: rest := by
    intro n hn
    obtain ⟨u, v, t, -, -, -, rfl⟩ := htraces n hn
    exact ⟨_, toList_traceToken u v t⟩
  have hfree : ∀ n ∈ (hopTraces protocols pairs).map String.toList,
      ∀ m ∈ (hopTraces protocols pairs).map String.toList,
      ∀ l : List Char, n <+: l → m <+: l → n = m := by
    intro n hn m hm l hln hlm
    obtain ⟨u, v, t, hu, hv, ht, rfl⟩ := htraces n hn
    obtain ⟨u', v', t', hu', hv', ht', rfl⟩ := htraces m hm
    rw [traceToken_fits (.inl ⟨u, v, t, hu, hv, ht, rfl⟩) (.inl ⟨u', v', t', hu', hv', ht', rfl⟩)
      (isTerminal_traceToken u v t) (isTerminal_traceToken u' v' t') hln hlm]
  have hfound := sum_occurrences_le hnodup hmark hfree (pushedText protocols circuits).toList
  rw [count_bracket_pushedText hspec hpairs hprotocols, List.map_map] at hfound
  have hasked : protocols.length * pairs.length ≤ protocols.dedup.length * pairs.length := by
    refine le_trans ?_ hfound
    calc protocols.length * pairs.length
        = (protocols.dedup.map fun t => (pairs.dedup.map fun e =>
            protocols.count t * pairs.count e).sum).sum := (sum_asked protocols pairs).symm
      _ ≤ (protocols.dedup.map fun t => (pairs.dedup.map fun e => occurrences
            (traceToken e.1 e.2 t).toList (pushedText protocols circuits).toList).sum).sum :=
          List.sum_le_sum fun t _ => List.sum_le_sum fun e _ => h t e.1 e.2
      _ = ((hopTraces protocols pairs).map ((fun needle => occurrences needle
            (pushedText protocols circuits).toList) ∘ String.toList)).sum := by
          simp only [hopTraces, List.map_flatMap, sum_flatMap, List.map_map]
          rfl
  have hle : protocols.length ≤ protocols.dedup.length :=
    Nat.le_of_mul_le_mul_right hasked (List.length_pos_iff.mpr hne)
  rw [← List.dedup_eq_self]
  exact (List.dedup_sublist protocols).eq_of_length_le hle

/-- A hop is pushed where there is one to push. -/
theorem pushedText_ne_empty
    (hspec : EulerCircuits (pairs : Multiset (String × String)) root circuits)
    (hne : pairs ≠ []) (hprotocols : protocols ≠ []) : pushedText protocols circuits ≠ "" := by
  obtain ⟨t, ht⟩ := List.exists_mem_of_ne_nil _ hprotocols
  obtain ⟨⟨u, v⟩, hin⟩ := List.exists_mem_of_ne_nil _ hne
  obtain ⟨circuit, hc, -⟩ := hspec.mem_edges_iff.mp (Multiset.mem_coe.mpr hin)
  intro hempty
  have hinfix : (hopState t circuit).toList <:+: (pushedText protocols circuits).toList :=
    infix_join (List.mem_map.mpr
      ⟨(t, circuit), mem_walks.mpr ⟨List.mem_dedup.mpr ht, hc⟩, rfl⟩)
  have hend := (infix_hopState (List.mem_append_right _ (List.mem_singleton_self _))).trans hinfix
  rw [hempty, String.toList_empty, List.infix_nil, toList_endToken] at hend
  cases hend

/-- Agents that answer with a dot, and have pushed one text. -/
def pushing (text : String) : Exchange :=
  { replying "." with
    notifications := some ⟨200, some (.object [("notifications",
      .list [.object [("event", statusUpdateWith text)]])])⟩ }

theorem readPushNotifications_pushing {text : String} (h : text ≠ "") :
    readPushNotifications (pushing text).notifications = [.str text] := by
  have hread : readNotification (.object [("event", statusUpdateWith text)]) =
      .ok [.str text] := by
    have hevent : (Value.object [("event", statusUpdateWith text)]).getOr "event" (.dict []) =
        .ok (statusUpdateWith text) := rfl
    rw [readNotification, hevent, ok_bind, readV10Notif_statusUpdateWith h]
    rfl
  change readNotifications [.object [("event", statusUpdateWith text)]] = _
  rw [readNotifications, hread]
  rfl

end Pushing

section Necessary

variable {s : ResolvedScenario} {agents : AgentTable} {tokens : List String}

/-- A scenario whose traversal can be sent, over agents and transports with plain
names; agents that push have no blank in them. -/
structure CanRun (s : ResolvedScenario) (agents : AgentTable) : Prop where
  first : ∃ root rest uri, s.sdks = root :: rest ∧ agents.cardUri root = .ok uri
  suite : ∃ suite,
    createTestSuite s.sdks agents s.edges s.protocols (hopOptions s "") = .ok suite
  behavior : s.behavior ∈ ["send_message", "push_notification", "resubscribe"]
  names : ∀ a ∈ s.sdks, Plain a
  blanks : isPush s = true → ∀ a ∈ s.sdks, ' ' ∉ a.toList
  transports : ∀ t ∈ s.protocols.getD allTransports, Plain t

theorem receiverUrl_replying (s : ResolvedScenario) (text : String) :
    receiverUrl (replying text) s = .ok "" := by
  unfold receiverUrl
  split <;> rfl

/-- A text with every expected token passes. -/
theorem passes_replying {text : String} {instruction : Instruction} (hrun : CanRun s agents)
    (hsuite : createTestSuite s.sdks agents s.edges s.protocols (hopOptions s "") =
      .ok (instruction, tokens))
    (hpush : isPush s = false) (htrimmed : Trimmed text)
    (htokens : ∀ token ∈ tokens, token.toList <:+: text.toList) :
    ∃ data, traverse (replying text) s agents = .ok (tokens, .result data) ∧
      extractResponseText data = .ok text ∧
      executeSingleItkTest (replying text) s agents = .ok true := by
  obtain ⟨root, rest, uri, hsdks, huri⟩ := hrun.first
  obtain ⟨data, hdata, htext⟩ := readResult_replying htrimmed
    (request (replying text) s root uri "" instruction) tokens
  have htraverse : traverse (replying text) s agents = .ok (tokens, .result data) := by
    rw [hsdks] at hsuite
    simp [traverse, receiverUrl_replying, hsdks, hsuite, huri, hdata, hpush]
  refine ⟨data, htraverse, htext, ?_⟩
  rw [executeSingleItkTest, htraverse, ok_bind]
  dsimp only
  have hknown : (decide (s.behavior = "send_message") ||
      decide (s.behavior = "resubscribe")) = true := by
    have hbehavior := hrun.behavior
    simp only [isPush, decide_eq_false_iff_not] at hpush
    simpa [hpush] using hbehavior
  rw [verdict, if_pos hknown]
  exact verifySendMessage_eq_true_iff.mpr ⟨text, htext, htokens⟩

/-- Where nothing is pushed and nothing is expected, silence passes. -/
theorem passes_silent {text : String} {instruction : Instruction} (hrun : CanRun s agents)
    (hsuite : createTestSuite s.sdks agents s.edges s.protocols (hopOptions s "") =
      .ok (instruction, [])) (htrimmed : Trimmed text) :
    ∃ reply, traverse (replying text) s agents = .ok ([], reply) ∧
      executeSingleItkTest (replying text) s agents = .ok true := by
  cases hpush : isPush s with
  | false =>
      obtain ⟨data, htraverse, -, hpassed⟩ :=
        passes_replying hrun hsuite hpush htrimmed (by simp)
      exact ⟨_, htraverse, hpassed⟩
  | true =>
      obtain ⟨root, rest, uri, hsdks, huri⟩ := hrun.first
      obtain ⟨data, hdata, -⟩ := readResult_replying htrimmed
        (request (replying text) s root uri "" instruction) []
      have htraverse : traverse (replying text) s agents = .ok ([], .notifications []) := by
        rw [hsdks] at hsuite
        simp only [traverse, receiverUrl_replying, hsdks, hsuite, huri, hdata, hpush, ok_bind]
        rfl
      refine ⟨_, htraverse, ?_⟩
      rw [executeSingleItkTest, htraverse]
      rfl

theorem trimmed_onceEach (tokens : List String) : Trimmed (onceEach tokens) := by
  have hlist : (onceEach tokens).toList = '.' :: ((String.join tokens.dedup).toList ++ ['.']) := by
    simp [onceEach, String.toList_append]
  have hdot : Text.isSpace '.' = false := by decide
  constructor
  · intro hempty
    rw [hempty] at hlist
    cases hlist
  · rw [hlist, Text.strip, List.dropWhile_cons, if_neg (by simp [hdot]), List.reverse_cons,
      List.reverse_append, List.reverse_singleton, List.singleton_append, List.cons_append,
      List.dropWhile_cons, if_neg (by simp [hdot])]
    simp

/-- The tokens of agents and transports with plain names are plain. -/
theorem plainToken_of_endTokens (hrun : CanRun s agents)
    {parsed : Option (List (String × String))} {root : String} {circuits : List (List String)}
    (hspec : EulerCircuits (targetEdges s.sdks parsed : Multiset (String × String)) root circuits)
    {token : String}
    (h : token ∈ endTokens (walks (s.protocols.getD allTransports) circuits)) :
    PlainToken token := by
  obtain ⟨⟨t, circuit⟩, hw, htoken⟩ := List.mem_flatMap.mp h
  obtain ⟨ht, hc⟩ := mem_walks.mp hw
  rcases List.mem_append.mp htoken with htoken | htoken
  · rw [circuitTokens, List.mem_reverse, List.mem_map] at htoken
    obtain ⟨⟨u, v⟩, hhop, rfl⟩ := htoken
    have hin : (u, v) ∈ targetEdges s.sdks parsed :=
      Multiset.mem_coe.mp (hspec.mem_edges_iff.mpr ⟨circuit, hc, hhop⟩)
    obtain ⟨hu, hv⟩ := targetEdges_over s.sdks parsed _ hin
    exact Or.inl ⟨u, v, t, hrun.names u hu, hrun.names v hv, hrun.transports t ht, rfl⟩
  · rw [List.mem_singleton.mp htoken]
    exact Or.inr ⟨t, hrun.transports t ht, rfl⟩

/-- A hop that is asked for is traced once by a text that has each token once. -/
theorem count_le_one_of_traces (hrun : CanRun s agents)
    {parsed : Option (List (String × String))} {root : String} {circuits : List (List String)}
    (hspec : EulerCircuits (targetEdges s.sdks parsed : Multiset (String × String)) root circuits)
    (htraces : TracesEveryHop s (targetEdges s.sdks parsed)
      (onceEach (endTokens (walks (s.protocols.getD allTransports) circuits))))
    {t u v : String} (ht : t ∈ s.protocols.getD allTransports)
    (hin : (u, v) ∈ targetEdges s.sdks parsed) :
    (s.protocols.getD allTransports).count t * (targetEdges s.sdks parsed).count (u, v) ≤ 1 := by
  obtain ⟨circuit, hc, hhop⟩ := hspec.mem_edges_iff.mp (Multiset.mem_coe.mpr hin)
  have htoken := traceToken_mem_endTokens (mem_walks.mpr ⟨ht, hc⟩) hhop
  exact (htraces t u v).trans (occurrences_onceEach_le
    (fun _ hx => plainToken_of_endTokens hrun hspec hx) htoken (isTerminal_traceToken u v t))

/-- A text that was pushed passes where it is verified. -/
theorem passes_pushing {text : String} {instruction : Instruction} (hrun : CanRun s agents)
    (hsuite : createTestSuite s.sdks agents s.edges s.protocols (hopOptions s "") =
      .ok (instruction, tokens))
    (hpush : isPush s = true) (htext : text ≠ "")
    (hverified : verifyPushNotification [text] tokens = true) :
    traverse (pushing text) s agents = .ok (tokens, .notifications [text]) ∧
      executeSingleItkTest (pushing text) s agents = .ok true := by
  obtain ⟨root, rest, uri, hsdks, huri⟩ := hrun.first
  have hdot : Trimmed "." := ⟨by decide, by decide⟩
  obtain ⟨data, hdata, -⟩ := readResult_replying hdot
    (request (replying ".") s root uri "" instruction) tokens
  have hreceiver : receiverUrl (pushing text) s = .ok "" := receiverUrl_replying s "."
  have hresult : readResult (pushing text) (request (pushing text) s root uri "" instruction)
      tokens = .ok data := hdata
  have htexts : Value.texts [.str text] = .ok [text] := Value.texts_str [text]
  have htraverse : traverse (pushing text) s agents = .ok (tokens, .notifications [text]) := by
    rw [hsdks] at hsuite
    simp [traverse, hreceiver, hsdks, hsuite, huri, hresult, hpush,
      readPushNotifications_pushing htext, htexts]
  refine ⟨htraverse, ?_⟩
  rw [executeSingleItkTest, htraverse, ok_bind]
  exact congrArg Except.ok hverified

/-- Where it is pushed, a hop that is asked for over a transport twice passes on one push. -/
theorem nodup_of_neverVacuous_push (hrun : CanRun s agents) (h : NeverVacuous s agents)
    (hpush : isPush s = true) {parsed : Option (List (String × String))}
    (hparsed : parseGivenEdges s.sdks s.edges = .ok parsed)
    (hne : targetEdges s.sdks parsed ≠ []) (hts : s.protocols.getD allTransports ≠ []) :
    (s.protocols.getD allTransports).Nodup := by
  obtain ⟨⟨instruction, tokens⟩, hsuite⟩ := hrun.suite
  obtain ⟨root, rest, uri, hsdks, huri⟩ := hrun.first
  have hsuite' := hsuite
  rw [hsdks] at hsuite'
  obtain ⟨parsed', circuits, hparsed', hcircuits, rfl⟩ := tokens_of_suite hsuite'
  rw [← hsdks] at hparsed' hcircuits
  obtain rfl := Except.ok.inj (hparsed.symm.trans hparsed')
  have hspec := hcircuits hts
  obtain ⟨htraverse, hpassed⟩ := passes_pushing hrun hsuite hpush
    (pushedText_ne_empty hspec hne hts) verify_pushedText
  obtain ⟨tokens', reply', text', parsed', htraversed⟩ := h _ hpassed
  cases htraverse.symm.trans htraversed.read
  obtain rfl := Except.ok.inj htraversed.said
  obtain rfl := Except.ok.inj (hparsed.symm.trans htraversed.edges)
  have hover := targetEdges_over s.sdks parsed
  refine nodup_of_traces hspec
    (fun e he => ⟨hrun.names _ (hover e he).1, hrun.names _ (hover e he).2⟩) hrun.transports
    (fun e he => ⟨hrun.blanks hpush _ (hover e he).1, hrun.blanks hpush _ (hover e he).2⟩) hne ?_
  intro t u v
  have htraces := htraversed.traces t u v
  rwa [String.join_cons, String.join_nil, String.append_empty] at htraces

/-- A scenario that never passes vacuously asks for a transport, for no transport twice, and for
each hop once unless it is pushed. -/
theorem asksOnce_of_neverVacuous (hrun : CanRun s agents) (h : NeverVacuous s agents) :
    AsksOnce s := by
  obtain ⟨⟨instruction, tokens⟩, hsuite⟩ := hrun.suite
  obtain ⟨root, rest, uri, hsdks, huri⟩ := hrun.first
  have hsuite' := hsuite
  rw [hsdks] at hsuite'
  obtain ⟨parsed, circuits, hparsed, hcircuits, rfl⟩ := tokens_of_suite hsuite'
  rw [← hsdks] at hparsed hcircuits
  have htransports : s.protocols ≠ some [] := by
    intro hnone
    have hnothing : endTokens (walks (s.protocols.getD allTransports) circuits) = [] := by
      rw [hnone]
      rfl
    rw [hnothing] at hsuite
    obtain ⟨reply, htraverse, hpassed⟩ := passes_silent hrun hsuite (trimmed_onceEach [])
    obtain ⟨tokens', reply', text, parsed', htraversed⟩ := h _ hpassed
    cases htraverse.symm.trans htraversed.read
    exact htraversed.expects rfl
  have hts := getD_ne_nil htransports
  have hspec := hcircuits hts
  by_cases hnone : targetEdges s.sdks parsed = []
  · -- without a hop there is nothing to ask for twice
    have hall : ∀ parsed', parseGivenEdges s.sdks s.edges = .ok parsed' →
        targetEdges s.sdks parsed' = [] := by
      intro parsed' hparsed'
      obtain rfl := Except.ok.inj (hparsed.symm.trans hparsed')
      exact hnone
    refine ⟨htransports, .inr hall, .inr fun parsed' hparsed' => ?_⟩
    rw [hall parsed' hparsed']
    exact List.nodup_nil
  cases hpush : isPush s with
  | true =>
      exact ⟨htransports, .inl (nodup_of_neverVacuous_push hrun h hpush hparsed hnone hts),
        .inl hpush⟩
  | false =>
      obtain ⟨data, htraverse, htext, hpassed⟩ := passes_replying hrun hsuite hpush
        (trimmed_onceEach _) fun token htoken => infix_onceEach htoken
      obtain ⟨tokens', reply', text, parsed', htraversed⟩ := h _ hpassed
      cases htraverse.symm.trans htraversed.read
      obtain rfl := Except.ok.inj (htext.symm.trans htraversed.said)
      obtain rfl := Except.ok.inj (hparsed.symm.trans htraversed.edges)
      have hone {t u v : String} (ht : t ∈ s.protocols.getD allTransports)
          (hin : (u, v) ∈ targetEdges s.sdks parsed) :=
        count_le_one_of_traces hrun hspec htraversed.traces ht hin
      refine ⟨htransports, .inl ?_, .inr fun parsed' hparsed' => ?_⟩
      · obtain ⟨⟨u, v⟩, hin⟩ := List.exists_mem_of_ne_nil _ hnone
        refine List.nodup_iff_count_le_one.mpr fun t => ?_
        by_cases ht : t ∈ s.protocols.getD allTransports
        · exact (Nat.le_mul_of_pos_right _ (List.count_pos_iff.mpr hin)).trans (hone ht hin)
        · rw [List.count_eq_zero.mpr ht]
          exact Nat.zero_le 1
      · obtain rfl := Except.ok.inj (hparsed.symm.trans hparsed')
        obtain ⟨t, ht⟩ := List.exists_mem_of_ne_nil _ hts
        refine List.nodup_iff_count_le_one.mpr fun ⟨u, v⟩ => ?_
        by_cases hin : (u, v) ∈ targetEdges s.sdks parsed
        · exact (Nat.le_mul_of_pos_left _ (List.count_pos_iff.mpr ht)).trans (hone ht hin)
        · rw [List.count_eq_zero.mpr hin]
          exact Nat.zero_le 1

end Necessary

section Contract

/-- A scenario does not pass without having happened where it asks for a transport, for none
twice, and for each hop once, or pushes; and, over plain names, only there. -/
theorem never_vacuous_iff (s : ResolvedScenario) (agents : AgentTable) :
    (AsksOnce s → NeverVacuous s agents) ∧
      (CanRun s agents → (NeverVacuous s agents ↔ AsksOnce s)) := by
  refine ⟨fun hasks => hasks.neverVacuous agents, fun hrun => ?_⟩
  exact ⟨asksOnce_of_neverVacuous hrun, fun hasks => hasks.neverVacuous agents⟩

/-- Two agents, over whatever edges and transports are asked for. -/
def requestedPair (edges protocols : Option (List String)) : ResolvedScenario :=
  fromLegacy {
    name := "pair"
    sdks := ["a", "b"]
    behavior := "send_message"
    edges
    protocols }

theorem pair_once_never_vacuous :
    NeverVacuous (requestedPair (some ["0->1", "1->0"]) (some ["grpc"])) threeAgents :=
  (never_vacuous_iff _ _).1 ⟨by decide, Or.inl (by decide), Or.inr fun parsed hparsed => by
    obtain rfl : some [("a", "b"), ("b", "a")] = parsed := Except.ok.inj hparsed
    decide⟩

/-- A scenario without transports passes on any reply, and one that asks for a hop or a
transport twice on a reply that traces it once. -/
theorem pair_passes_vacuously :
    (executeSingleItkTest (replying "no hop was made") (requestedPair none (some []))
        threeAgents = .ok true ∧
      ¬ NeverVacuous (requestedPair none (some [])) threeAgents) ∧
    (executeSingleItkTest (replying "[b -> a (grpc)][a -> b (grpc)]traversal-completed:grpc")
        (requestedPair (some ["0->1", "0->1", "1->0", "1->0"]) (some ["grpc"]))
        threeAgents = .ok true ∧
      ¬ NeverVacuous (requestedPair (some ["0->1", "0->1", "1->0", "1->0"]) (some ["grpc"]))
        threeAgents) ∧
    (executeSingleItkTest (replying "[b -> a (grpc)][a -> b (grpc)]traversal-completed:grpc")
        (requestedPair (some ["0->1", "1->0"]) (some ["grpc", "grpc"])) threeAgents = .ok true ∧
      ¬ NeverVacuous (requestedPair (some ["0->1", "1->0"]) (some ["grpc", "grpc"]))
        threeAgents) := by
  have hrun (edges protocols : Option (List String))
      (hsuite : ∃ suite, createTestSuite ["a", "b"] threeAgents edges protocols
        (hopOptions (requestedPair edges protocols) "") = .ok suite)
      (hplain : ∀ t ∈ protocols.getD allTransports, Plain t) :
      CanRun (requestedPair edges protocols) threeAgents :=
    ⟨⟨"a", ["b"], _, rfl, rfl⟩, hsuite, by simp [requestedPair, fromLegacy],
      by simp only [requestedPair, fromLegacy]; decide, (fun hpush => by cases hpush), hplain⟩
  refine ⟨⟨by decide +kernel, fun h => ?_⟩, ⟨by decide +kernel, fun h => ?_⟩,
    ⟨by decide +kernel, fun h => ?_⟩⟩
  · exact (asksOnce_of_neverVacuous (hrun _ _ ⟨_, rfl⟩ (by decide)) h).transports rfl
  · obtain hpush | hnodup :=
      (asksOnce_of_neverVacuous (hrun _ _ ⟨_, rfl⟩ (by decide)) h).hops
    · cases hpush
    · exact absurd (hnodup (some [("a", "b"), ("a", "b"), ("b", "a"), ("b", "a")]) rfl)
        (by decide)
  · obtain hnodup | hnone :=
      (asksOnce_of_neverVacuous (hrun _ _ ⟨_, rfl⟩ (by decide)) h).distinct
    · exact absurd hnodup (by decide)
    · exact absurd (hnone (some [("a", "b"), ("b", "a")]) rfl) (by decide)

end Contract

end A2aItk.Verification
