import A2aItk.Traversal.TestSuite

/-!
# What agents do with an instruction

The documented meaning of an instruction, as the events it causes, and the run
of a whole test suite at its root. A hop is traced by the agent that holds the
instruction, whatever the token says.
-/

namespace A2aItk.Traversal

open Python
open Multigraph

/-- What an agent does in public: put text into its reply, or call an agent. -/
inductive Event
  | emit (agent text : String)
  | call (caller callee transport : String)
  deriving DecidableEq

section Semantics

variable (listens : String → Option String)

mutual

/-- The reply of `holder` to an instruction and the events on the way. `listens`
is the agent behind a card URI. -/
def run : Instruction → String → Option (String × List Event)
  | .returnResponse response _, holder => some (response, [.emit holder response])
  | .steps instructions _, holder => runSteps instructions holder
  | .callAgent transport agentCardUri instruction _ _, holder => do
      let callee ← listens agentCardUri
      let (reply, events) ← run instruction callee
      pure (reply, .call holder callee transport :: events)

/-- The children of a series in order, their replies concatenated. -/
def runSteps : List Instruction → String → Option (String × List Event)
  | [], _ => some ("", [])
  | instruction :: rest, holder => do
      let (reply, events) ← run instruction holder
      let (replies, later) ← runSteps rest holder
      pure (reply ++ replies, events ++ later)

end

theorem runSteps_of_forall₂ {instructions : List Instruction} {holder : String}
    {results : List (String × List Event)}
    (h : List.Forall₂ (fun i r => run listens i holder = some r) instructions results) :
    runSteps listens instructions holder =
      some (String.join (results.map Prod.fst), results.flatMap Prod.snd) := by
  induction h with
  | nil => rfl
  | cons hrun _ ih => simp [runSteps, hrun, ih, String.join_cons]

end Semantics

/-- The calls of a run: caller, callee and transport. -/
def calls (events : List Event) : List (String × String × String) :=
  events.filterMap fun
    | .call caller callee transport => some (caller, callee, transport)
    | .emit _ _ => none

/-- Every token in a run marks the end of a traversal, or a hop that the agent
emitting it makes right there. -/
def Honest (events : List Event) : Prop :=
  ∀ agent text later, (Event.emit agent text :: later) <:+ events →
    (∃ transport, text = endToken transport) ∨
    ∃ callee transport rest, text = traceToken agent callee transport ∧
      later = .call agent callee transport :: rest

section Circuits

variable (transport : String)

/-- What the agents of a circuit answer together: its hops, then the end of the traversal. -/
def circuitReply : List String → String
  | u :: v :: rest => traceToken u v transport ++ circuitReply (v :: rest)
  | _ => endToken transport

/-- The events of a circuit started by `holder`, who stands in for its first
node. -/
def circuitEvents (holder : String) : List String → List Event
  | u :: v :: rest =>
      .emit holder (traceToken u v transport) :: .call holder v transport ::
        circuitEvents v (v :: rest)
  | _ => [.emit holder (endToken transport)]

variable {transport}

theorem run_traversalToInstruction {listens : String → Option String} {agents : AgentTable}
    {options : HopOptions} {circuit : List String} {instruction : Instruction}
    {tokens : List String}
    (hlistens : ∀ v ∈ circuit, ∀ uri, agents.cardUri v = .ok uri → listens uri = some v)
    (h : traversalToInstruction agents options transport circuit = .ok (instruction, tokens))
    (holder : String) :
    run listens instruction holder =
      some (circuitReply transport circuit, circuitEvents transport holder circuit) := by
  induction circuit generalizing holder instruction tokens with
  | nil =>
      cases h
      simp [run, circuitReply, circuitEvents]
  | cons u rest ih =>
      cases rest with
      | nil =>
          cases h
          simp [run, circuitReply, circuitEvents]
      | cons v rest =>
          obtain ⟨current, traceTokens, uri, hcurrent, huri, rfl, -⟩ :=
            traversalToInstruction_cons_cons_eq_ok_iff.mp h
          have hv : listens uri = some v := hlistens v (by simp) uri huri
          have hrest := ih (fun w hw => hlistens w (List.mem_cons_of_mem _ hw)) hcurrent v
          simp [run, runSteps, hv, hrest, circuitReply, circuitEvents]

/-- The hops really made: the circuit's, with the holder in its first place. -/
theorem calls_circuitEvents (holder : String) (circuit : List String) :
    calls (circuitEvents transport holder circuit) =
      (hops (holder :: circuit.tail)).map fun e => (e.1, e.2, transport) := by
  induction circuit generalizing holder with
  | nil => rfl
  | cons u rest ih =>
      cases rest with
      | nil => rfl
      | cons v rest =>
          have hrest := ih v
          simp only [calls, circuitEvents, List.tail_cons, hops_cons_cons, List.map_cons,
            List.filterMap_cons] at hrest ⊢
          rw [hrest]

theorem calls_append (events later : List Event) :
    calls (events ++ later) = calls events ++ calls later :=
  List.filterMap_append

theorem mem_circuitReply {circuit : List String} {token : String}
    (h : token ∈ circuitTokens transport circuit ++ [endToken transport]) :
    token.toList <:+: (circuitReply transport circuit).toList := by
  induction circuit with
  | nil =>
      obtain rfl : token = endToken transport := by simpa [circuitTokens] using h
      exact List.infix_refl _
  | cons u rest ih =>
      cases rest with
      | nil =>
          obtain rfl : token = endToken transport := by simpa [circuitTokens] using h
          exact List.infix_refl _
      | cons v rest =>
          simp only [circuitReply, String.toList_append]
          rw [circuitTokens_cons_cons] at h
          simp only [List.mem_append, List.mem_singleton] at h
          obtain (hin | rfl) | hend := h
          · exact (ih (by simp [hin])).trans (List.suffix_append _ _).isInfix
          · exact (List.prefix_append _ _).isInfix
          · exact (ih (by simp [hend])).trans (List.suffix_append _ _).isInfix

end Circuits

section Honesty

variable {events later : List Event}

theorem honest_nil : Honest [] := by
  intro agent text later h
  simp at h

theorem honest_cons_emit_iff {agent text : String} :
    Honest (.emit agent text :: later) ↔
      ((∃ transport, text = endToken transport) ∨
        ∃ callee transport rest, text = traceToken agent callee transport ∧
          later = .call agent callee transport :: rest) ∧ Honest later := by
  constructor
  · intro h
    refine ⟨h agent text later (List.suffix_refl _), fun a t l hs => h a t l ?_⟩
    exact hs.trans (List.suffix_cons _ _)
  · rintro ⟨hhere, hlater⟩ a t l hs
    obtain heq | hs := List.suffix_cons_iff.mp hs
    · cases heq
      exact hhere
    · exact hlater a t l hs

theorem honest_cons_call_iff {caller callee transport : String} :
    Honest (.call caller callee transport :: later) ↔ Honest later := by
  constructor
  · exact fun h a t l hs => h a t l (hs.trans (List.suffix_cons _ _))
  · intro h a t l hs
    obtain heq | hs := List.suffix_cons_iff.mp hs
    · cases heq
    · exact h a t l hs

theorem Honest.append (h : Honest events) (h' : Honest later) : Honest (events ++ later) := by
  induction events with
  | nil => exact h'
  | cons event events ih =>
      cases event with
      | call caller callee transport =>
          exact honest_cons_call_iff.mpr (ih (honest_cons_call_iff.mp h))
      | emit agent text =>
          obtain ⟨hhere, hrest⟩ := honest_cons_emit_iff.mp h
          refine honest_cons_emit_iff.mpr ⟨?_, ih hrest⟩
          obtain hend | ⟨callee, transport, rest, htext, rfl⟩ := hhere
          · exact Or.inl hend
          · exact Or.inr ⟨callee, transport, rest ++ later, htext, rfl⟩

theorem Honest.of_append (h : Honest (events ++ later)) : Honest later :=
  fun a t l hs => h a t l (hs.trans (List.suffix_append _ _))

theorem honest_flatMap {α : Type*} {l : List α} {f : α → List Event}
    (h : ∀ a ∈ l, Honest (f a)) : Honest (l.flatMap f) := by
  induction l with
  | nil => exact honest_nil
  | cons a rest ih =>
      rw [List.flatMap_cons]
      exact (h a (by simp)).append (ih fun b hb => h b (by simp [hb]))

/-- A circuit started by its own first node is honest. -/
theorem honest_circuitEvents (transport holder : String) (circuit : List String)
    (h : circuit.head? = some holder) : Honest (circuitEvents transport holder circuit) := by
  induction circuit generalizing holder with
  | nil => cases h
  | cons u rest ih =>
      obtain rfl : u = holder := by simpa using h
      cases rest with
      | nil => exact honest_cons_emit_iff.mpr ⟨Or.inl ⟨transport, rfl⟩, honest_nil⟩
      | cons v rest =>
          apply honest_cons_emit_iff.mpr
          exact ⟨Or.inr ⟨v, transport, _, rfl, rfl⟩,
            honest_cons_call_iff.mpr (ih v rfl)⟩

theorem traceToken_ne_endToken (u v t t' : String) : traceToken u v t ≠ endToken t' := by
  intro h
  have hl := congrArg String.toList h
  simp [traceToken, endToken, endOfTraversalToken, String.toList_append, toString] at hl

/-- The caller is read off a token once callee and transport are known. -/
theorem traceToken_left_cancel {u w v t : String} (h : traceToken u v t = traceToken w v t) :
    u = w := by
  have hl := congrArg String.toList h
  simp only [traceToken, toString, String.toList_append] at hl
  apply String.toList_inj.mp
  simpa using hl

/-- A circuit started by another agent than its first node is not honest. -/
theorem head_of_honest {transport holder u v : String} {rest : List String}
    (h : Honest (circuitEvents transport holder (u :: v :: rest) ++ later)) : u = holder := by
  rw [circuitEvents, List.cons_append, List.cons_append] at h
  obtain ⟨hend | ⟨callee, t, tail, htext, hcall⟩, -⟩ := honest_cons_emit_iff.mp h
  · obtain ⟨t, ht⟩ := hend
    exact absurd ht (traceToken_ne_endToken u v transport t)
  · simp only [List.cons.injEq, Event.call.injEq] at hcall
    obtain ⟨⟨-, rfl, rfl⟩, -⟩ := hcall
    exact traceToken_left_cancel htext

end Honesty

section Suites

variable {agents : AgentTable} {options : HopOptions} {root : String} {rest : List String}
  {listens : String → Option String} {circuits : List (List String)}
  {E : Multiset (String × String)}

/-- Every circuit, once for each transport. -/
def walks (transports : List String) (circuits : List (List String)) :
    List (String × List String) :=
  transports.flatMap fun t => circuits.map fun c => (t, c)

theorem mem_walks {transports : List String} {t : String} {c : List String} :
    (t, c) ∈ walks transports circuits ↔ t ∈ transports ∧ c ∈ circuits := by
  simp [walks]

/-- The reply of a whole suite, circuit by circuit. -/
def suiteReply (transports : List String) (circuits : List (List String)) : String :=
  String.join ((walks transports circuits).map fun w => circuitReply w.1 w.2)

/-- The hops of a whole suite in the order in which they are made. -/
def suiteEvents (root : String) (transports : List String) (circuits : List (List String)) :
    List Event :=
  (walks transports circuits).flatMap fun w => circuitEvents w.1 root w.2

/-- The tokens that are expected of a suite. -/
def suiteTokens (transports : List String) (circuits : List (List String)) : List String :=
  (walks transports circuits).flatMap fun w => circuitTokens w.1 w.2 ++ [endToken w.1]

/-- A suite is the circuits of its graph, once for each transport. -/
theorem createTestSuite_circuits {edges protocols : Option (List String)}
    {parsed : Option (List (String × String))} {suite : Instruction × List String}
    (hparsed : parseGivenEdges (root :: rest) edges = .ok parsed)
    (h : createTestSuite (root :: rest) agents edges protocols options = .ok suite) :
    ∃ circuits parts,
      (protocols.getD allTransports ≠ [] →
        eulerTraversalWithHierholzer root (root :: rest) parsed = .ok circuits) ∧
      List.Forall₂ (fun walk part => PartOf agents options walk.1 walk.2 part)
        (walks (protocols.getD allTransports) circuits) parts ∧
      suite = (.steps (parts.map Prod.fst) .concat, parts.flatMap Prod.snd) := by
  obtain ⟨parsed', parts, hparsed', hparts, rfl⟩ := createTestSuite_eq_ok_iff.mp h
  obtain rfl : parsed' = parsed := Except.ok.inj (hparsed'.symm.trans hparsed)
  generalize protocols.getD allTransports = ts at *
  cases heuler : eulerTraversalWithHierholzer root (root :: rest) parsed' with
  | error e =>
      -- no transport was asked for
      cases hparts with
      | nil => exact ⟨[], [], by simp, .nil, rfl⟩
      | cons ht _ =>
          obtain ⟨circuits, hcircuits, -⟩ := transportParts_eq_ok_iff.mp ht
          exact absurd (heuler.symm.trans hcircuits) (by simp)
  | ok circuits =>
      refine ⟨circuits, parts.flatten, fun _ => rfl, ?_, rfl⟩
      clear h hparsed hparsed'
      induction hparts with
      | nil => exact .nil
      | cons ht _ ih =>
          obtain ⟨circuits', hcircuits, hpart⟩ := transportParts_eq_ok_iff.mp ht
          obtain rfl : circuits' = circuits := Except.ok.inj (hcircuits.symm.trans heuler)
          rw [walks, List.flatMap_cons, List.flatten_cons]
          apply List.rel_append _ ih
          exact List.forall₂_map_left_iff.mpr hpart

theorem tokens_of_partOf {ws : List (String × List String)}
    {parts : List (Instruction × List String)}
    (h : List.Forall₂ (fun walk part => PartOf agents options walk.1 walk.2 part) ws parts) :
    parts.flatMap Prod.snd = ws.flatMap fun w => circuitTokens w.1 w.2 ++ [endToken w.1] := by
  induction h with
  | nil => rfl
  | cons hpart _ ih => rw [List.flatMap_cons, List.flatMap_cons, hpart.2, ih]

theorem runs_of_partOf {ws : List (String × List String)}
    {parts : List (Instruction × List String)} (holder : String)
    (hlistens : ∀ w ∈ ws, ∀ v ∈ w.2, ∀ uri, agents.cardUri v = .ok uri → listens uri = some v)
    (h : List.Forall₂ (fun walk part => PartOf agents options walk.1 walk.2 part) ws parts) :
    List.Forall₂ (fun i r => run listens i holder = some r) (parts.map Prod.fst)
      (ws.map fun w => (circuitReply w.1 w.2, circuitEvents w.1 holder w.2)) := by
  induction h with
  | nil => exact .nil
  | cons hpart _ ih =>
      refine .cons ?_ (ih fun w hw => hlistens w (List.mem_cons_of_mem _ hw))
      exact run_traversalToInstruction (hlistens _ (by simp)) hpart.1 holder

/-- Card URIs that lead to the agents they were taken from. -/
def Reaches (listens : String → Option String) (agents : AgentTable) (sdks : List String) :
    Prop :=
  ∀ v ∈ sdks, ∃ uri, agents.cardUri v = .ok uri ∧ listens uri = some v

theorem Reaches.addressed {sdks : List String} (h : Reaches listens agents sdks) :
    Addressed agents sdks := by
  intro v hv
  obtain ⟨uri, huri, -⟩ := h v hv
  exact ⟨uri, huri⟩

/-- Running a suite at its root walks the circuits of its graph. -/
theorem run_createTestSuite {edges protocols : Option (List String)}
    {parsed : Option (List (String × String))} {suite : Instruction × List String}
    (hreaches : Reaches listens agents (root :: rest))
    (hparsed : parseGivenEdges (root :: rest) edges = .ok parsed)
    (h : createTestSuite (root :: rest) agents edges protocols options = .ok suite) :
    ∃ circuits,
      (protocols.getD allTransports ≠ [] → EulerCircuits
        (targetEdges (root :: rest) parsed : Multiset (String × String)) root circuits) ∧
      run listens suite.1 root = some (suiteReply (protocols.getD allTransports) circuits,
        suiteEvents root (protocols.getD allTransports) circuits) ∧
      suite.2 = suiteTokens (protocols.getD allTransports) circuits := by
  obtain ⟨circuits, parts, heuler, hparts, rfl⟩ := createTestSuite_circuits hparsed h
  have hspec := fun hts => eulerTraversal_spec (heuler hts)
  refine ⟨circuits, hspec, ?_, tokens_of_partOf hparts⟩
  have hruns : List.Forall₂ (fun i r => run listens i root = some r) _ _ :=
    runs_of_partOf root ?_ hparts
  · rw [run, runSteps_of_forall₂ listens hruns, List.map_map, List.flatMap_map]
    rfl
  · intro w hw v hv uri huri
    obtain ⟨ht, hc⟩ := mem_walks.mp hw
    have hin : v ∈ root :: rest :=
      mem_of_mem_circuit (hspec (List.ne_nil_of_mem ht)) hc hv
    obtain ⟨uri', huri', hlisten⟩ := hreaches v hin
    obtain rfl : uri' = uri := Except.ok.inj (huri'.symm.trans huri)
    exact hlisten

theorem infix_suiteReply {transports : List String} {token : String}
    (h : token ∈ suiteTokens transports circuits) :
    token.toList <:+: (suiteReply transports circuits).toList := by
  obtain ⟨w, hw, htoken⟩ := List.mem_flatMap.mp h
  refine (mem_circuitReply htoken).trans ?_
  rw [suiteReply, String.toList_join, List.flatMap_map, List.flatMap_def]
  exact List.infix_of_mem_flatten (List.mem_map_of_mem hw)

/-- Where the whole graph hangs together with the root, every circuit starts
there. -/
theorem EulerCircuits.head_of_linked (h : EulerCircuits E root circuits)
    (hlinked : ∀ e ∈ E, Linked E root e.1) {c : List String} (hc : c ∈ circuits) :
    c.head? = some root := by
  by_cases hE : E = 0
  · rw [h.idle hE] at hc
    obtain rfl : c = [root] := by simpa using hc
    rfl
  · obtain ⟨s, hhead, -⟩ := h.closed c hc
    have hs : s ∈ c := List.mem_of_mem_head? hhead
    obtain ⟨v, hv⟩ := h.exists_edge_of_mem hE hc hs
    exact h.starts c hc ((h.component c hc s hs root).mpr (hlinked _ hv).symm)

theorem calls_suiteEvents_of_head (transports : List String) {edges : List (String × String)}
    (hcovers : (circuits.flatMap hops).Perm edges)
    (hhead : ∀ c ∈ circuits, c.head? = some root) :
    (calls (suiteEvents root transports circuits)).Perm
      (transports.flatMap fun t => edges.map fun e => (e.1, e.2, t)) := by
  induction transports with
  | nil => exact .nil
  | cons t ts ih =>
      have hone : calls ((circuits.map fun c => (t, c)).flatMap
          fun w => circuitEvents w.1 root w.2) =
            (circuits.flatMap hops).map fun e => (e.1, e.2, t) := by
        clear hcovers ih
        induction circuits with
        | nil => rfl
        | cons c rest ih =>
            have hc : root :: c.tail = c :=
              List.cons_head?_tail (Option.mem_def.mpr (hhead c (by simp)))
            rw [List.map_cons, List.flatMap_cons, calls_append, calls_circuitEvents, hc,
              ih fun d hd => hhead d (by simp [hd]), List.flatMap_cons, List.map_append]
      rw [suiteEvents, walks, List.flatMap_cons, List.flatMap_append, calls_append,
        List.flatMap_cons, hone]
      exact (hcovers.map _).append ih

/-- The first call of every circuit is made by the root. -/
theorem mem_calls_suiteEvents {transports : List String} {t u v : String} {rest : List String}
    (ht : t ∈ transports) (hc : u :: v :: rest ∈ circuits) :
    (root, v, t) ∈ calls (suiteEvents root transports circuits) := by
  apply List.mem_filterMap.mpr
  refine ⟨.call root v t, List.mem_flatMap.mpr ⟨_, mem_walks.mpr ⟨ht, hc⟩, ?_⟩, rfl⟩
  simp [circuitEvents]

/-- A circuit away from the root has its first hop made by the root, a hop the
graph does not have. -/
theorem foreign_hop (h : EulerCircuits E root circuits) {e : String × String} (he : e ∈ E)
    (hunlinked : ¬ Linked E root e.1) :
    ∃ c ∈ circuits, ∃ s v rest, c = s :: v :: rest ∧ s ≠ root ∧ (root, v) ∉ E := by
  obtain ⟨c, hc, hhop⟩ := h.mem_edges_iff.mp he
  obtain ⟨he1, -⟩ := mem_of_mem_hops hhop
  have hout : ∀ u ∈ c, ¬ Linked E root u := by
    intro u hu hlink
    exact hunlinked (hlink.trans ((h.component c hc u hu e.1).mp he1))
  cases c with
  | nil => simp at hhop
  | cons s tail =>
      cases tail with
      | nil => simp at hhop
      | cons v rest =>
          refine ⟨_, hc, s, v, rest, rfl, ?_, fun hrv => ?_⟩
          · rintro rfl
            exact hout s (by simp) (Linked.refl E s)
          · exact hout v (by simp) (Linked.edge hrv)

/-- The root tells the truth exactly when every circuit is its own. -/
theorem honest_suiteEvents_iff (h : EulerCircuits E root circuits)
    (transports : List String) :
    Honest (suiteEvents root transports circuits) ↔
      transports = [] ∨ ∀ e ∈ E, Linked E root e.1 := by
  constructor
  · intro hhonest
    by_contra hnot
    obtain ⟨hts, hunlinked⟩ := not_or.mp hnot
    obtain ⟨t, ht⟩ := List.exists_mem_of_ne_nil _ hts
    obtain ⟨e, he⟩ := not_forall.mp hunlinked
    obtain ⟨hmem, hne⟩ := Classical.not_imp.mp he
    obtain ⟨c, hc, s, v, rest, rfl, hs, -⟩ := foreign_hop h hmem hne
    obtain ⟨before, after, hsplit⟩ := List.append_of_mem (mem_walks.mpr ⟨ht, hc⟩)
    rw [suiteEvents, hsplit, List.flatMap_append, List.flatMap_cons] at hhonest
    exact hs (head_of_honest hhonest.of_append)
  · rintro (rfl | hlinked)
    · exact honest_nil
    · apply honest_flatMap
      rintro ⟨t, c⟩ hw
      exact honest_circuitEvents t root c (h.head_of_linked hlinked (mem_walks.mp hw).2)

end Suites

section Examples

/-- Three started agents. -/
def threeAgents : AgentTable := ⟨[("a", ⟨1⟩), ("b", ⟨2⟩), ("c", ⟨3⟩)]⟩

/-- Who listens at which address. -/
def threeListening : String → Option String
  | "http://127.0.0.1:1" => some "a"
  | "http://127.0.0.1:2" => some "b"
  | "http://127.0.0.1:3" => some "c"
  | _ => none

theorem threeAgents_reached : Reaches threeListening threeAgents ["a", "b", "c"] := by
  rw [Reaches, List.forall_mem_cons, List.forall_mem_cons, List.forall_mem_singleton]
  exact ⟨⟨"http://127.0.0.1:1", by decide, by decide⟩,
    ⟨"http://127.0.0.1:2", by decide, by decide⟩,
    ⟨"http://127.0.0.1:3", by decide, by decide⟩⟩

end Examples

end A2aItk.Traversal
