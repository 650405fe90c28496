import A2aItk.Python.Objects

/-!
# Reading replies and notifications

The readers of `testlib.py`: the text of a JSON-RPC result, of a stream of server
sent events, and of the notifications the receiver collected.
-/

namespace A2aItk.Verification

open Python

section Results

/-- The texts of a message's parts. -/
def extractTextFromParts (messageData : Value) : Except PyError (List Value) := do
  if !(← messageData.hasKey "parts") then return []
  let parts ← (← messageData.item "parts").iterate
  let found ← parts.mapM fun part => do
    if !(← part.hasKey "text") then return []
    let text ← part.item "text"
    return if text.truthy then [text] else []
  return found.flatten

/-- The message a result carries, in whichever shape it comes. -/
def messageOf (result : Value) : Except PyError Value := do
  if ← result.hasKey "parts" then return result
  if ← result.hasKey "message" then return ← result.item "message"
  if ← result.hasKey "status" then
    let status ← result.item "status"
    if ← status.hasKey "message" then return ← status.item "message"
  if ← result.hasKey "task" then
    let task ← result.item "task"
    if ← task.hasKey "status" then
      let status ← task.item "status"
      if ← status.hasKey "message" then return ← status.item "message"
  return .null

def historyOf (result : Value) : Except PyError (List Value) := do
  if ← result.hasKey "history" then return ← (← result.item "history").iterate
  if ← result.hasKey "task" then
    let task ← result.item "task"
    if ← task.hasKey "history" then return ← (← task.item "history").iterate
  return []

def isAgentRole (role : Value) : Bool := role.eq (.str "agent") || role.eq (.str "ROLE_AGENT")

/-- The text of a JSON-RPC result. -/
def extractResponseText (result : Value) : Except PyError String := do
  let messageData ← messageOf result
  let responses ← if messageData.truthy then extractTextFromParts messageData else pure []
  let history ← historyOf result
  let earlier ← history.mapM fun msg => do
    let role ← msg.getOr "role" .null
    if isAgentRole role then extractTextFromParts msg else pure []
  let found ← Value.texts (responses ++ earlier.flatten)
  return String.ofList (Text.strip (String.join found).toList)

end Results

section Notifications

/-- The texts of a message where an agent in the given role sent it. -/
def textsOfAgent (role : String) (messageData : Value) : Except PyError (List Value) := do
  if !messageData.truthy then return []
  if (← messageData.getOr "role" .null).eq (.str role) then extractTextFromParts messageData
  else return []

/-- Notifications of v1.0 carry the agent's message in `statusUpdate`. -/
def readV10Notif (event : Value) : Except PyError (List Value) := do
  let camel ← event.getOr "statusUpdate" .null
  let update ← if camel.truthy then pure camel else event.getOr "status_update" .null
  if !(update.truthy && update.isMapping) then return []
  if !(← update.hasKey "status") then return []
  let status ← update.item "status"
  if !status.isMapping then return []
  if !(← status.hasKey "message") then return []
  textsOfAgent "ROLE_AGENT" (← status.item "message")

/-- Notifications of v0.3 are flat. -/
def readV03Notif (event : Value) : Except PyError (List Value) := do
  let status ← event.getOr "status" .null
  if !(status.truthy && status.isMapping) then return []
  if !(← status.hasKey "message") then return []
  textsOfAgent "agent" (← status.item "message")

def readNotification (notif : Value) : Except PyError (List Value) := do
  let event ← notif.getOr "event" (.dict [])
  let texts ← readV10Notif event
  if texts.isEmpty then readV03Notif event else return texts

/-- The loop over the notifications: the first that raises ends it. -/
def readNotifications : List Value → List Value
  | [] => []
  | notif :: rest =>
      match readNotification notif with
      | .ok texts => texts ++ readNotifications rest
      | .error _ => []

/-- An answer over HTTP; the body is `none` where it is not JSON. -/
structure HttpAnswer where
  status : Nat
  body : Option Value

/-- `read_push_notifications`; what goes wrong on the way leaves what was read. -/
def readPushNotifications (answer : Option HttpAnswer) : List Value :=
  match answer with
  | some ⟨200, some data⟩ =>
      match data.getOr "notifications" (.list []) >>= Value.iterate with
      | .ok notifications => readNotifications notifications
      | .error _ => []
  | _ => []

end Notifications

section Exchanges

/-- A synchronous JSON-RPC answer. -/
def readSyncResponse (answer : HttpAnswer) : Except PyError Value := do
  if answer.status < 200 || answer.status ≥ 300 then
    throw (.runtimeError s!"HTTP status {answer.status}")
  match answer.body with
  | none => throw (.valueError "the body is not JSON")
  | some response =>
      if ← response.hasKey "error" then throw (.runtimeError "JSON-RPC Error")
      response.getOr "result" (.dict [])

/-- The text one event brings, `none` where it carries no result. -/
def eventText (isV0 : Bool) (eventData : Value) : Except PyError (Option String) := do
  if !(← eventData.hasKey "result") then return none
  let res ← eventData.item "result"
  if isV0 then return some (← extractResponseText res)
  return some ("\n".intercalate (← Value.texts (← readV10Notif res)))

/-- The loop over the events: the text collected, and whether it ended early. An
event that is no JSON, or that no reader understands, is passed over. -/
def collectStream (isV0 : Bool) (complete : String → Bool) :
    List (Option Value) → List String → List String × Bool
  | [], collected => (collected, false)
  | sse :: rest, collected =>
      match sse.map (eventText isV0) with
      | some (.ok (some text)) =>
          let collected := if text.isEmpty then collected else collected ++ [text]
          if complete ("\n".intercalate collected) then (collected, true)
          else collectStream isV0 complete rest collected
      | _ => collectStream isV0 complete rest collected

/-- A stream: its events, and the exception it ends with if it breaks. -/
structure Stream where
  events : List (Option Value)
  broken : Option PyError := none

/-- A streamed answer as one result. -/
def readStreamResponse (isV0 : Bool) (complete : String → Bool) (stream : Stream) :
    Except PyError Value :=
  let (collected, done) := collectStream isV0 complete stream.events []
  match done, stream.broken with
  | false, some e => throw e
  | _, _ => pure (.object [("status", .object [("message", .object [("parts",
      .list [.object [("text", .str ("\n".intercalate collected))]])])])])

end Exchanges

end A2aItk.Verification
