import A2aItk.Scenarios.Schema
import A2aItk.Verification.Occurrences
import A2aItk.Verification.PushNotification
import A2aItk.Verification.Replies

/-!
# One traversal and its verdict

`_execute_single_itk_test` of `testlib.py`: the instruction is sent to the first
agent, what comes back is read, and every expected token must be in it.

## Implementation notes

The agents, the receiver of notifications and the file system are an `Exchange`.
What a client raises for a failed request is a `PyError` of any family.
-/

namespace A2aItk.Verification

open Python Scenarios
open Traversal (AgentTable HopOptions Instruction createTestSuite)

/-- What is sent to the first agent. -/
structure Request where
  url : String
  isV0 : Bool
  instruction : Instruction
  streaming : Bool
  /-- Where to push to, and the token to push with. -/
  pushConfig : Option (String × String)

/-- The outside of one traversal. -/
structure Exchange where
  goMount : Bool := false
  rustMount : Bool := false
  notificationServer : Except PyError String
  testToken : String := ""
  post : Request → Except PyError HttpAnswer
  stream : Request → Stream
  notifications : Option HttpAnswer

/-- What the check reads: a result, or what was pushed. -/
inductive Reply
  | result (result : Value)
  | notifications (texts : List String)

/-- The whole text of a reply. -/
def Reply.text : Reply → Except PyError String
  | .result data => extractResponseText data
  | .notifications texts => pure (String.join texts)

/-- `_verify_send_message`: each expected token is somewhere in the reply. -/
def verifySendMessage (result : Value) (expectedEndTokens : List String) :
    Except PyError Bool := do
  let fullResponse ← extractResponseText result
  return expectedEndTokens.all fun token => occursIn token fullResponse

/-- A URL without slashes at its end. -/
def rstripSlash (url : String) : String := String.ofList (Text.rstripChar '/' url.toList)

/-- Go and Rust agents are addressed without a slash at the end. -/
def targetUrl (x : Exchange) (firstSdk baseUri : String) : String :=
  let url := rstripSlash baseUri ++ "/jsonrpc"
  if occursIn "go" firstSdk || "rust_".toList.isPrefixOf firstSdk.toList ||
      (firstSdk = "current" && (x.goMount || x.rustMount)) then
    rstripSlash url
  else rstripSlash url ++ "/"

section Execution

variable (x : Exchange) (s : ResolvedScenario) (agents : AgentTable)

/-- The hops are answered by push notifications. -/
def isPush : Bool := s.behavior = "push_notification"

/-- The address of the receiver, where one is needed. -/
def receiverUrl : Except PyError String :=
  if isPush s then x.notificationServer else pure ""

/-- The options every hop of a scenario is made with. -/
def hopOptions (url : String) : HopOptions where
  streaming := s.streaming
  behavior := s.behavior
  notificationServerUrl := url

/-- The request to the first agent. -/
def request (firstSdk baseUri receiver : String) (instruction : Instruction) : Request where
  url := targetUrl x firstSdk baseUri
  isV0 := occursIn "v03" firstSdk
  instruction
  streaming := s.streaming
  pushConfig :=
    if isPush s && !receiver.isEmpty then some (receiver ++ "/notifications", x.testToken)
    else none

/-- What the first agent answers. -/
def readResult (sent : Request) (expectedEndTokens : List String) : Except PyError Value :=
  if sent.streaming then
    readStreamResponse sent.isV0
      (fun text => expectedEndTokens.all fun token => occursIn token text) (x.stream sent)
  else x.post sent >>= readSyncResponse

/-- Send the instruction and read what comes back, with the tokens expected in it. -/
def traverse : Except PyError (List String × Reply) := do
  let receiver ← receiverUrl x s
  let (instruction, expectedEndTokens) ←
    createTestSuite s.sdks agents s.edges s.protocols (hopOptions s receiver)
  match s.sdks with
  | [] => throw .indexError
  | firstSdk :: _ => do
      let baseUri ← agents.cardUri firstSdk
      let result ← readResult x (request x s firstSdk baseUri receiver instruction)
        expectedEndTokens
      if isPush s then do
        let texts ← Value.texts (readPushNotifications x.notifications)
        pure (expectedEndTokens, .notifications texts)
      else pure (expectedEndTokens, .result result)

/-- The check that goes with the behavior. -/
def verdict (behavior : String) (expectedEndTokens : List String) :
    Reply → Except PyError Bool
  | .notifications texts => pure (verifyPushNotification texts expectedEndTokens)
  | .result result =>
      if behavior = "send_message" || behavior = "resubscribe" then
        verifySendMessage result expectedEndTokens
      else throw (.valueError s!"Unsupported behavior: {behavior}")

/-- `_execute_single_itk_test`, from the suite to its verdict. -/
def executeSingleItkTest : Except PyError Bool := do
  let (expectedEndTokens, reply) ← traverse x s agents
  verdict s.behavior expectedEndTokens reply

end Execution

section Readings

variable {x : Exchange} {s : ResolvedScenario} {agents : AgentTable} {tokens : List String}
  {reply : Reply}

theorem traverse_reply (h : traverse x s agents = .ok (tokens, reply)) :
    ∃ root rest receiver instruction, s.sdks = root :: rest ∧
      createTestSuite s.sdks agents s.edges s.protocols (hopOptions s receiver) =
        .ok (instruction, tokens) ∧
      (isPush s = true → ∃ texts, reply = .notifications texts) ∧
      (isPush s = false → ∃ data, reply = .result data) := by
  unfold traverse at h
  obtain ⟨receiver, -, h⟩ := bind_eq_ok_iff.mp h
  obtain ⟨⟨instruction, expected⟩, hsuite, h⟩ := bind_eq_ok_iff.mp h
  dsimp only at h
  cases hsdks : s.sdks with
  | nil =>
      rw [hsdks] at h
      cases h
  | cons root rest =>
      rw [hsdks] at h
      obtain ⟨baseUri, -, h⟩ := bind_eq_ok_iff.mp h
      obtain ⟨result, -, h⟩ := bind_eq_ok_iff.mp h
      rw [hsdks] at hsuite
      cases hpush : isPush s with
      | true =>
          rw [hpush, if_pos rfl] at h
          obtain ⟨texts, -, h⟩ := bind_eq_ok_iff.mp h
          cases h
          exact ⟨root, rest, receiver, instruction, rfl, hsuite, fun _ => ⟨texts, rfl⟩, by simp⟩
      | false =>
          rw [hpush] at h
          cases h
          exact ⟨root, rest, receiver, instruction, rfl, hsuite, by simp, fun _ => ⟨result, rfl⟩⟩

/-- A reply that passes holds every expected token. -/
theorem verifySendMessage_eq_true_iff {result : Value} :
    verifySendMessage result tokens = .ok true ↔
      ∃ text, extractResponseText result = .ok text ∧
        ∀ token ∈ tokens, token.toList <:+: text.toList := by
  rw [verifySendMessage, bind_eq_ok_iff]
  simp [occursIn_iff]

theorem executeSingleItkTest_eq_true (h : executeSingleItkTest x s agents = .ok true) :
    ∃ tokens reply, traverse x s agents = .ok (tokens, reply) ∧
      verdict s.behavior tokens reply = .ok true := by
  obtain ⟨⟨tokens, reply⟩, htraverse, h⟩ := bind_eq_ok_iff.mp h
  exact ⟨tokens, reply, htraverse, h⟩

end Readings

end A2aItk.Verification
