import A2aItk.Python.Exceptions
import A2aItk.Python.Text
import A2aItk.Traversal.EulerCircuits
import Mathlib.Data.List.Sort

/-!
# Building the instruction of a scenario

`agent_table.py` and the builders of `test_suite/__init__.py`: edge strings are
read against the agents, each transport gets the circuits of the graph, and each
circuit becomes one nested instruction with its trace tokens.

## Implementation notes

The default transports are a frozenset in the source. Its iteration order is
unspecified; the order of declaration stands for it.
-/

namespace A2aItk.Traversal

open Python

/-- One running agent's port. -/
structure AgentEndpoint where
  httpPort : Nat
  deriving DecidableEq

/-- Where the card of an agent is served. -/
def AgentEndpoint.cardUri (endpoint : AgentEndpoint) : String :=
  s!"http://127.0.0.1:{endpoint.httpPort}"

/-- Where each agent of a run listens. -/
structure AgentTable where
  endpoints : List (String × AgentEndpoint)

namespace AgentTable

/-- The started agents as an error lists them. -/
def known (agents : AgentTable) : String :=
  if agents.endpoints.isEmpty then "(none)"
  else ", ".intercalate ((agents.endpoints.map Prod.fst).mergeSort (· ≤ ·))

/-- The address of an agent, if it was started. -/
def cardUri (agents : AgentTable) (agentId : String) : Except PyError String :=
  match agents.endpoints.lookup agentId with
  | some endpoint => pure endpoint.cardUri
  | none => throw (.runtimeError
      s!"No running agent {Text.repr agentId} in this run; started agents are: {agents.known}")

end AgentTable

/-- What a hop asks the next agent to do. -/
inductive CallBehavior
  | sendMessage
  | pushNotification (url : String)
  | resubscribe
  deriving DecidableEq

/-- How an agent puts the answers to its steps together. -/
inductive ResponseGenerator
  | unspecified
  | concat
  deriving DecidableEq

/-- The message of `instruction.proto`. -/
inductive Instruction
  | callAgent (transport agentCardUri : String) (instruction : Instruction)
      (streaming : Bool) (behavior : Option CallBehavior)
  | returnResponse (response : String) (holdTask : Bool)
  | steps (instructions : List Instruction) (responseGenerator : ResponseGenerator)

/-- What is said where a traversal ends. -/
def endOfTraversalToken : String := "traversal-completed"

/-- The end of a traversal with the transport it was made over. -/
def endToken (transport : String) : String := s!"{endOfTraversalToken}:{transport}"

/-- What an agent says of a hop it makes. -/
def traceToken (u v transport : String) : String := s!"[{u} -> {v} ({transport})]"

/-- The transports of a suite that names none. -/
def allTransports : List String := ["jsonrpc", "grpc", "http_json"]

/-- What a run asks of every hop. -/
structure HopOptions where
  streaming : Bool := false
  behavior : String := "send_message"
  notificationServerUrl : String := ""

namespace HopOptions

/-- A task is kept open for a client that comes back. -/
def holdTask (options : HopOptions) : Bool := options.behavior = "resubscribe"

/-- How a hop is made, for the behaviors an agent knows. -/
def callBehavior (options : HopOptions) : Option CallBehavior :=
  if options.behavior = "push_notification" then
    some (.pushNotification options.notificationServerUrl)
  else if options.behavior = "send_message" then some .sendMessage
  else if options.behavior = "resubscribe" then some .resubscribe
  else none

end HopOptions

/-- `int(s)` where the failure is an exception. -/
def parseInt (s : List Char) : Except PyError Int :=
  match Text.int s with
  | some i => pure i
  | none => throw (.valueError
      s!"invalid literal for int() with base 10: {Text.repr (String.ofList s)}")

/-- The two indices written in an edge string. -/
def readIndices (edgeStr : String) : Except PyError (Int × Int) :=
  match Text.split ['-', '>'] edgeStr.toList with
  | [u, v] =>
      if !(Text.isDigit (Text.strip u) && Text.isDigit (Text.strip v)) then
        throw (.valueError s!"Invalid edge format or index: {edgeStr}")
      else do
        let uIdx ← parseInt (Text.strip u)
        let vIdx ← parseInt (Text.strip v)
        pure (uIdx, vIdx)
  | _ => throw (.valueError s!"Invalid edge format: {edgeStr}")

/-- The indices of an edge string where both name one of `n` agents. -/
def readEdge (n : Nat) (rangeError : String) (edgeStr : String) :
    Except PyError (Nat × Nat) := do
  let (u, v) ← readIndices edgeStr
  if u < 0 || u ≥ n || v < 0 || v ≥ n then throw (.valueError rangeError)
  else pure (u.toNat, v.toNat)

/-- One edge as a pair of agents. -/
def parseEdgeString (refSdks : List String) (edgeStr : String) :
    Except PyError (String × String) := do
  let (u, v) ← readEdge refSdks.length s!"Invalid edge format or index: {edgeStr}" edgeStr
  -- both indices are in range, so no default is read
  pure (refSdks.getD u "", refSdks.getD v "")

/-- The edges in order; the first that cannot be read stops it. -/
def parseEdgeStrings (edges refSdks : List String) :
    Except PyError (List (String × String)) :=
  edges.mapM (parseEdgeString refSdks)

/-- The nested instruction of a circuit and its trace tokens, the last hop's
first. -/
def traversalToInstruction (agents : AgentTable) (options : HopOptions) (transport : String) :
    List String → Except PyError (Instruction × List String)
  | u :: v :: rest => do
      let (current, traceTokens) ←
        traversalToInstruction agents options transport (v :: rest)
      let uri ← agents.cardUri v
      pure (.steps
        [.returnResponse (traceToken u v transport) options.holdTask,
          .callAgent transport uri current options.streaming options.callBehavior] .concat,
        traceTokens ++ [traceToken u v transport])
  | _ => pure (.returnResponse (endToken transport) options.holdTask, [])

/-- The instructions and expected tokens of one transport, a pair a circuit. -/
def transportParts (sdks : List String) (agents : AgentTable)
    (parsedEdges : Option (List (String × String))) (options : HopOptions)
    (transport : String) : Except PyError (List (Instruction × List String)) :=
  match sdks with
  | [] => throw .indexError
  | root :: _ => do
      let circuits ← eulerTraversalWithHierholzer root sdks parsedEdges
      circuits.mapM fun circuit => do
        let (instruction, traceTokens) ←
          traversalToInstruction agents options transport circuit
        pure (instruction, traceTokens ++ [endToken transport])

/-- The edges of a scenario. An empty list counts as none. -/
def parseGivenEdges (sdks : List String) :
    Option (List String) → Except PyError (Option (List (String × String)))
  | some (e :: es) => some <$> parseEdgeStrings (e :: es) sdks
  | _ => pure none

/-- `create_test_suite`: the instruction for the first agent, and the tokens its reply has to
have. -/
def createTestSuite (sdks : List String) (agents : AgentTable)
    (edges protocols : Option (List String)) (options : HopOptions) :
    Except PyError (Instruction × List String) := do
  let parsedEdges ← parseGivenEdges sdks edges
  let parts ← (protocols.getD allTransports).mapM
    (transportParts sdks agents parsedEdges options)
  pure (.steps (parts.flatten.map Prod.fst) .concat, parts.flatten.flatMap Prod.snd)

section Edges

variable {n : Nat} {msg edgeStr : String}

/-- A number is read just where Python reads one. -/
theorem parseInt_eq_ok_iff {s : List Char} {i : Int} :
    parseInt s = .ok i ↔ Text.int s = some i := by
  unfold parseInt
  split
  · rename_i k hk
    simp [hk]
  · rename_i hnone
    simp [hnone]

/-- Both halves of an edge consist of digits. -/
theorem readIndices_eq_ok_iff {i j : Int} :
    readIndices edgeStr = .ok (i, j) ↔
      ∃ u v, Text.split ['-', '>'] edgeStr.toList = [u, v] ∧
        Text.isDigit (Text.strip u) = true ∧ Text.isDigit (Text.strip v) = true ∧
        parseInt (Text.strip u) = .ok i ∧ parseInt (Text.strip v) = .ok j := by
  unfold readIndices
  split
  · rename_i u v hsplit
    constructor
    · intro h
      split at h
      · cases h
      · rename_i hdigits
        simp only [Bool.not_eq_true', Bool.not_eq_false, Bool.and_eq_true] at hdigits
        obtain ⟨a, ha, h⟩ := bind_eq_ok_iff.mp h
        obtain ⟨b, hb, h⟩ := bind_eq_ok_iff.mp h
        cases h
        exact ⟨u, v, hsplit, hdigits.1, hdigits.2, ha, hb⟩
    · rintro ⟨u', v', hsplit', hu, hv, hi, hj⟩
      obtain ⟨rfl, rfl⟩ : u = u' ∧ v = v' := by simpa using hsplit.symm.trans hsplit'
      simp [hu, hv, hi, hj]
  · rename_i hno
    refine iff_of_false (by simp) ?_
    rintro ⟨u, v, hsplit, -⟩
    exact hno u v hsplit

/-- Neither number of an edge is negative. -/
theorem readIndices_nonneg {i j : Int} (h : readIndices edgeStr = .ok (i, j)) :
    0 ≤ i ∧ 0 ≤ j := by
  obtain ⟨u, v, -, hu, hv, hi, hj⟩ := readIndices_eq_ok_iff.mp h
  exact ⟨Text.int_nonneg_of_isDigit hu (parseInt_eq_ok_iff.mp hi),
    Text.int_nonneg_of_isDigit hv (parseInt_eq_ok_iff.mp hj)⟩

/-- The reading of an edge does not depend on the agents, only whether it is in
range does. -/
theorem readEdge_eq_ok_iff {u v : Nat} :
    readEdge n msg edgeStr = .ok (u, v) ↔
      readIndices edgeStr = .ok ((u : Int), (v : Int)) ∧ u < n ∧ v < n := by
  unfold readEdge
  rw [bind_eq_ok_iff]
  constructor
  · rintro ⟨⟨i, j⟩, hread, h⟩
    obtain ⟨hi, hj⟩ := readIndices_nonneg hread
    dsimp only at h
    split at h
    · cases h
    · rename_i hrange
      cases h
      simp only [ge_iff_le, Bool.or_eq_true, decide_eq_true_eq, not_or, not_lt, not_le] at hrange
      rw [Int.toNat_of_nonneg hi, Int.toNat_of_nonneg hj]
      exact ⟨hread, by omega, by omega⟩
  · rintro ⟨hread, hu, hv⟩
    refine ⟨_, hread, ?_⟩
    have hrange : ((decide ((u : Int) < 0) || decide ((u : Int) ≥ n) ||
        decide ((v : Int) < 0) || decide ((v : Int) ≥ n))) = false := by
      simp only [Bool.or_eq_false_iff, decide_eq_false_iff_not]
      omega
    simp only [hrange, Int.toNat_natCast, pure_eq_ok]
    rfl

/-- What an edge string written against `sdks` stands for. -/
def Spells (sdks : List String) (edgeStr : String) (pair : String × String) : Prop :=
  ∃ u v : Nat, readIndices edgeStr = .ok ((u : Int), (v : Int)) ∧ u < sdks.length ∧
    v < sdks.length ∧ pair = (sdks.getD u "", sdks.getD v "")

/-- An edge that can be read joins two agents of the list. -/
theorem Spells.mem {sdks : List String} {pair : String × String}
    (h : Spells sdks edgeStr pair) : pair.1 ∈ sdks ∧ pair.2 ∈ sdks := by
  obtain ⟨u, v, -, hu, hv, rfl⟩ := h
  rw [List.getD_eq_getElem?_getD, List.getD_eq_getElem?_getD, List.getElem?_eq_getElem hu,
    List.getElem?_eq_getElem hv]
  exact ⟨List.getElem_mem hu, List.getElem_mem hv⟩

/-- An edge is read as a pair just where it spells it. -/
theorem parseEdgeString_eq_ok_iff {sdks : List String} {pair : String × String} :
    parseEdgeString sdks edgeStr = .ok pair ↔ Spells sdks edgeStr pair := by
  rw [parseEdgeString, bind_eq_ok_iff]
  constructor
  · rintro ⟨⟨u, v⟩, hread, hp⟩
    obtain ⟨hidx, hu, hv⟩ := readEdge_eq_ok_iff.mp hread
    exact ⟨u, v, hidx, hu, hv, (Except.ok.inj hp).symm⟩
  · rintro ⟨u, v, hidx, hu, hv, rfl⟩
    exact ⟨(u, v), readEdge_eq_ok_iff.mpr ⟨hidx, hu, hv⟩, rfl⟩

/-- Edges are read pair by pair. -/
theorem parseEdgeStrings_eq_ok_iff {edges sdks : List String}
    {pairs : List (String × String)} :
    parseEdgeStrings edges sdks = .ok pairs ↔ List.Forall₂ (Spells sdks) edges pairs := by
  rw [parseEdgeStrings, mapM_eq_ok_iff]
  constructor
  · exact fun h => h.imp fun _ _ => parseEdgeString_eq_ok_iff.mp
  · exact fun h => h.imp fun _ _ => parseEdgeString_eq_ok_iff.mpr

/-- What cannot be read is a `ValueError`. -/
theorem parseInt_raisesOnly (s : List Char) :
    RaisesOnly (fun e => e.isValueError = true) (parseInt s) := by
  unfold parseInt
  split
  · exact RaisesOnly.ok _ _
  · exact RaisesOnly.error rfl

/-- An edge that is no pair of numbers is a `ValueError`. -/
theorem readIndices_raisesOnly (edgeStr : String) :
    RaisesOnly (fun e => e.isValueError = true) (readIndices edgeStr) := by
  unfold readIndices
  split
  · split
    · exact RaisesOnly.error rfl
    · apply (parseInt_raisesOnly _).bind
      intro u _
      apply (parseInt_raisesOnly _).bind
      intro v _
      exact RaisesOnly.ok _ (u, v)
  · exact RaisesOnly.error rfl

/-- An index out of range is a `ValueError` too. -/
theorem readEdge_raisesOnly (n : Nat) (msg edgeStr : String) :
    RaisesOnly (fun e => e.isValueError = true) (readEdge n msg edgeStr) := by
  unfold readEdge
  apply (readIndices_raisesOnly edgeStr).bind
  intro ⟨u, v⟩ _
  dsimp only
  split
  · exact RaisesOnly.error rfl
  · exact RaisesOnly.ok _ _

/-- Reading the edges of a scenario raises nothing else. -/
theorem parseGivenEdges_raisesOnly (sdks : List String) (edges : Option (List String)) :
    RaisesOnly (fun e => e.isValueError = true) (parseGivenEdges sdks edges) := by
  unfold parseGivenEdges
  split
  · apply RaisesOnly.map
    apply RaisesOnly.mapM
    intro edgeStr _
    apply (readEdge_raisesOnly _ _ edgeStr).bind
    exact fun _ _ => RaisesOnly.ok _ _
  · exact RaisesOnly.ok _ none

/-- An edge string as the program writes it. -/
def printEdge (u v : Nat) : String := s!"{u}->{v}"

/-- A number that was printed is read back. -/
theorem parseInt_repr (n : Nat) : parseInt (Nat.repr n).toList = .ok (n : Int) := by
  have hvalue : Nat.ofDigitChars 10 (Nat.repr n).toList 0 = n := by
    rw [Nat.toList_repr, Nat.ofDigitChars_ten_toDigits]
  rw [parseInt, Text.int_of_isDigit (Text.repr_ne_nil n) fun c hc => Text.isDigit_of_mem_repr hc,
    hvalue]
  rfl

/-- A written edge reads back. -/
theorem readIndices_printEdge (u v : Nat) :
    readIndices (printEdge u v) = .ok ((u : Int), (v : Int)) := by
  have hnot : ∀ n : Nat, '-' ∉ (Nat.repr n).toList :=
    fun n h => absurd (Text.isDigit_of_mem_repr h) (by decide)
  have hsplit : Text.split ['-', '>'] (printEdge u v).toList =
      [(Nat.repr u).toList, (Nat.repr v).toList] := by
    have hlist : (printEdge u v).toList =
        (Nat.repr u).toList ++ (['-', '>'] ++ (Nat.repr v).toList) := by
      simp [printEdge, toString, String.toList_append]
    rw [hlist, Text.split_join rfl (hnot u) (hnot v)]
  have hstrip : ∀ n : Nat, Text.strip (Nat.repr n).toList = (Nat.repr n).toList :=
    fun n => Text.strip_of_isDigit fun c hc => Text.isDigit_of_mem_repr hc
  have hdigit : ∀ n : Nat, Text.isDigit (Nat.repr n).toList = true :=
    fun n => Text.isDigit_of_isDigit (Text.repr_ne_nil n) fun c hc => Text.isDigit_of_mem_repr hc
  simp only [readIndices, hsplit, hstrip, hdigit, parseInt_repr, Bool.and_self, Bool.not_true,
    Bool.false_eq_true, if_false, ok_bind, pure_eq_ok]

end Edges

section Suite

open Multigraph

variable {agents : AgentTable} {options : HopOptions} {transport root : String}
  {sdks rest : List String} {parsed : Option (List (String × String))}

/-- Edges that are given are read. -/
theorem parseGivenEdges_of_ne_nil {edges : List String} {pairs : List (String × String)}
    (hne : edges ≠ []) (h : parseEdgeStrings edges sdks = .ok pairs) :
    parseGivenEdges sdks (some edges) = .ok (some pairs) := by
  cases edges with
  | nil => exact absurd rfl hne
  | cons e es =>
      rw [parseGivenEdges, h]
      rfl

/-- Parsed edges are kept whole. -/
theorem targetEdges_of_parsed {edges : List String} {pairs : List (String × String)}
    (hne : edges ≠ []) (h : parseEdgeStrings edges sdks = .ok pairs) :
    targetEdges sdks (some pairs) = pairs := by
  have hforall := parseEdgeStrings_eq_ok_iff.mp h
  cases hforall with
  | nil => exact absurd rfl hne
  | cons he hes =>
      rw [targetEdges, List.filter_eq_self]
      intro p hp
      obtain ⟨e, -, hspells⟩ := exists_left_of_mem (.cons he hes) hp
      simpa using hspells.mem

/-- Every agent a traversal may reach is in the run's table. -/
def Addressed (agents : AgentTable) (sdks : List String) : Prop :=
  ∀ s ∈ sdks, ∃ uri, agents.cardUri s = .ok uri

/-- The trace tokens of a circuit, the last hop's first. -/
def circuitTokens (transport : String) (circuit : List String) : List String :=
  ((hops circuit).map fun e => traceToken e.1 e.2 transport).reverse

/-- The first hop of a circuit is traced last. -/
@[simp] theorem circuitTokens_cons_cons (u v : String) (rest : List String) :
    circuitTokens transport (u :: v :: rest) =
      circuitTokens transport (v :: rest) ++ [traceToken u v transport] := by
  simp [circuitTokens]

/-- A hop is the trace of it, and a call of the next agent with the rest. -/
theorem traversalToInstruction_cons_cons_eq_ok_iff {u v : String} {rest : List String}
    {instruction : Instruction} {tokens : List String} :
    traversalToInstruction agents options transport (u :: v :: rest) =
        .ok (instruction, tokens) ↔
      ∃ current traceTokens uri,
        traversalToInstruction agents options transport (v :: rest) =
          .ok (current, traceTokens) ∧
        agents.cardUri v = .ok uri ∧
        instruction = .steps
          [.returnResponse (traceToken u v transport) options.holdTask,
            .callAgent transport uri current options.streaming options.callBehavior]
          .concat ∧
        tokens = traceTokens ++ [traceToken u v transport] := by
  rw [traversalToInstruction, bind_eq_ok_iff]
  constructor
  · rintro ⟨⟨current, traceTokens⟩, hcurrent, h⟩
    obtain ⟨uri, huri, h⟩ := bind_eq_ok_iff.mp h
    cases h
    exact ⟨current, traceTokens, uri, hcurrent, huri, rfl, rfl⟩
  · rintro ⟨current, traceTokens, uri, hcurrent, huri, rfl, rfl⟩
    refine ⟨_, hcurrent, ?_⟩
    simp [huri]

/-- By induction on the circuit: one token for each hop. -/
theorem traversalToInstruction_tokens {circuit : List String} {instruction : Instruction}
    {tokens : List String}
    (h : traversalToInstruction agents options transport circuit = .ok (instruction, tokens)) :
    tokens = circuitTokens transport circuit := by
  induction circuit generalizing instruction tokens with
  | nil =>
      cases h
      rfl
  | cons u rest ih =>
      cases rest with
      | nil =>
          cases h
          rfl
      | cons v rest =>
          obtain ⟨current, traceTokens, uri, hcurrent, -, -, rfl⟩ :=
            traversalToInstruction_cons_cons_eq_ok_iff.mp h
          rw [ih hcurrent, circuitTokens_cons_cons]

/-- An instruction is made as soon as every agent is known. -/
theorem traversalToInstruction_ok {circuit : List String}
    (h : ∀ v ∈ circuit, ∃ uri, agents.cardUri v = .ok uri) :
    ∃ instruction, traversalToInstruction agents options transport circuit =
      .ok (instruction, circuitTokens transport circuit) := by
  induction circuit with
  | nil => exact ⟨_, rfl⟩
  | cons u rest ih =>
      cases rest with
      | nil => exact ⟨_, rfl⟩
      | cons v rest =>
          obtain ⟨current, hcurrent⟩ := ih fun w hw => h w (List.mem_cons_of_mem _ hw)
          obtain ⟨uri, huri⟩ := h v (by simp)
          refine ⟨_, traversalToInstruction_cons_cons_eq_ok_iff.mpr
            ⟨current, _, uri, hcurrent, huri, rfl, ?_⟩⟩
          exact circuitTokens_cons_cons u v rest

/-- What one circuit contributes to the suite. -/
def PartOf (agents : AgentTable) (options : HopOptions) (transport : String)
    (circuit : List String) (part : Instruction × List String) : Prop :=
  traversalToInstruction agents options transport circuit =
      .ok (part.1, circuitTokens transport circuit) ∧
    part.2 = circuitTokens transport circuit ++ [endToken transport]

theorem transportParts_eq_ok_iff {parts : List (Instruction × List String)} :
    transportParts (root :: rest) agents parsed options transport = .ok parts ↔
      ∃ circuits, eulerTraversalWithHierholzer root (root :: rest) parsed = .ok circuits ∧
        List.Forall₂ (PartOf agents options transport) circuits parts := by
  have hstep : ∀ (circuit : List String) (part : Instruction × List String), (do
      let (instruction, traceTokens) ← traversalToInstruction agents options transport circuit
      pure (instruction, traceTokens ++ [endToken transport]) :
        Except PyError (Instruction × List String)) = .ok part ↔
      PartOf agents options transport circuit part := by
    intro circuit part
    rw [bind_eq_ok_iff]
    constructor
    · rintro ⟨⟨instruction, tokens⟩, h, hpart⟩
      cases hpart
      obtain rfl := traversalToInstruction_tokens h
      exact ⟨h, rfl⟩
    · rintro ⟨h, hpart⟩
      exact ⟨_, h, congrArg Except.ok (Prod.ext rfl hpart.symm)⟩
  rw [transportParts, bind_eq_ok_iff]
  constructor
  · rintro ⟨circuits, hcircuits, hparts⟩
    exact ⟨circuits, hcircuits, (mapM_eq_ok_iff.mp hparts).imp fun c p => (hstep c p).mp⟩
  · rintro ⟨circuits, hcircuits, hparts⟩
    exact ⟨circuits, hcircuits, mapM_eq_ok_iff.mpr (hparts.imp fun c p => (hstep c p).mpr)⟩

theorem createTestSuite_eq_ok_iff {edges protocols : Option (List String)}
    {suite : Instruction × List String} :
    createTestSuite sdks agents edges protocols options = .ok suite ↔
      ∃ parsed parts, parseGivenEdges sdks edges = .ok parsed ∧
        List.Forall₂ (fun t p => transportParts sdks agents parsed options t = .ok p)
          (protocols.getD allTransports) parts ∧
        suite = (.steps (parts.flatten.map Prod.fst) .concat,
          parts.flatten.flatMap Prod.snd) := by
  rw [createTestSuite, bind_eq_ok_iff]
  constructor
  · rintro ⟨parsed, hparsed, h⟩
    obtain ⟨parts, hparts, h⟩ := bind_eq_ok_iff.mp h
    exact ⟨parsed, parts, hparsed, mapM_eq_ok_iff.mp hparts, (Except.ok.inj h).symm⟩
  · rintro ⟨parsed, parts, hparsed, hparts, rfl⟩
    refine ⟨parsed, hparsed, ?_⟩
    rw [mapM_eq_ok_iff.mpr hparts]
    rfl

/-- The nodes of the circuits are agents of the scenario. -/
theorem mem_of_mem_circuit {circuits : List (List String)}
    (h : EulerCircuits (targetEdges (root :: rest) parsed : Multiset (String × String))
      root circuits) {c : List String} (hc : c ∈ circuits) {u : String} (hu : u ∈ c) :
    u ∈ root :: rest := by
  by_cases hE : (targetEdges (root :: rest) parsed : Multiset (String × String)) = 0
  · rw [h.idle hE] at hc
    obtain rfl : c = [root] := by simpa using hc
    obtain rfl : u = root := by simpa using hu
    simp
  · obtain ⟨v, hv⟩ := h.exists_edge_of_mem hE hc hu
    exact (targetEdges_over _ _ _ hv).1

/-- One transport of an addressed scenario: its circuits where the graph is
balanced, a `ValueError` where it is not. -/
theorem transportParts_cases (haddr : Addressed agents (root :: rest))
    (parsed : Option (List (String × String))) (options : HopOptions) (transport : String) :
    (DegreeBalanced (targetEdges (root :: rest) parsed : Multiset (String × String)) ∧
      ∃ parts, transportParts (root :: rest) agents parsed options transport = .ok parts) ∨
    (¬ DegreeBalanced (targetEdges (root :: rest) parsed : Multiset (String × String)) ∧
      ∃ e, transportParts (root :: rest) agents parsed options transport = .error e ∧
        e.isValueError = true) := by
  obtain ⟨hb, circuits, hcircuits, hspec⟩ | ⟨hb, e, he, hve⟩ :=
    eulerTraversal_cases root (root :: rest) parsed
  · left
    have hall : ∀ c ∈ circuits, ∃ part, PartOf agents options transport c part := by
      intro c hc
      obtain ⟨instruction, hi⟩ :
          ∃ instruction, traversalToInstruction agents options transport c =
            .ok (instruction, circuitTokens transport c) :=
        traversalToInstruction_ok fun v hv => haddr v (mem_of_mem_circuit hspec hc hv)
      exact ⟨(instruction, _), hi, rfl⟩
    obtain ⟨parts, hparts⟩ := exists_forall₂ hall
    exact ⟨hb, parts, transportParts_eq_ok_iff.mpr ⟨circuits, hcircuits, hparts⟩⟩
  · right
    refine ⟨hb, e, ?_, hve⟩
    rw [transportParts, he]
    rfl

/-- Over an addressed scenario the suite is built exactly when the edges parse
and, should any transport be asked for, the graph is balanced. -/
theorem createTestSuite_cases (options : HopOptions) (haddr : Addressed agents (root :: rest))
    (edges protocols : Option (List String)) :
    (∃ parsed, parseGivenEdges (root :: rest) edges = .ok parsed ∧
      (protocols.getD allTransports = [] ∨
        DegreeBalanced (targetEdges (root :: rest) parsed : Multiset (String × String))) ∧
      ∃ suite, createTestSuite (root :: rest) agents edges protocols options = .ok suite) ∨
    ((∀ parsed, parseGivenEdges (root :: rest) edges = .ok parsed →
      protocols.getD allTransports ≠ [] ∧
        ¬ DegreeBalanced (targetEdges (root :: rest) parsed : Multiset (String × String))) ∧
      ∃ e, createTestSuite (root :: rest) agents edges protocols options = .error e ∧
        e.isValueError = true) := by
  have hraises := parseGivenEdges_raisesOnly (root :: rest) edges
  cases hparse : parseGivenEdges (root :: rest) edges with
  | error e =>
      right
      refine ⟨fun _ h => absurd h (by simp), e, ?_, hraises e hparse⟩
      rw [createTestSuite, hparse]
      rfl
  | ok parsed =>
      by_cases hb : DegreeBalanced (targetEdges (root :: rest) parsed : Multiset (String × String))
      · left
        have hall : ∀ t ∈ protocols.getD allTransports,
            ∃ p, transportParts (root :: rest) agents parsed options t = .ok p := by
          intro t _
          obtain ⟨-, hok⟩ | ⟨hnb, -⟩ := transportParts_cases haddr parsed options t
          · exact hok
          · exact absurd hb hnb
        obtain ⟨parts, hparts⟩ := exists_forall₂ hall
        exact ⟨parsed, rfl, Or.inr hb, _,
          createTestSuite_eq_ok_iff.mpr ⟨parsed, parts, hparse, hparts, rfl⟩⟩
      · cases hts : protocols.getD allTransports with
        | nil =>
            left
            refine ⟨parsed, rfl, Or.inl rfl, _, createTestSuite_eq_ok_iff.mpr
              ⟨parsed, [], hparse, ?_, rfl⟩⟩
            rw [hts]
            exact .nil
        | cons t ts =>
            right
            refine ⟨fun p hp => ⟨by simp, by obtain rfl := Except.ok.inj hp; exact hb⟩, ?_⟩
            obtain ⟨hb', -⟩ | ⟨-, e, he, hve⟩ := transportParts_cases haddr parsed options t
            · exact absurd hb' hb
            · refine ⟨e, ?_, hve⟩
              rw [createTestSuite, hparse, hts]
              simp [List.mapM_cons, he]

end Suite

end A2aItk.Traversal
