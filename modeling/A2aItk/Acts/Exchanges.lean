import A2aItk.Acts.Gate
import A2aItk.Acts.Resolution
import A2aItk.Acts.Streams
import A2aItk.Acts.Until

/-!
# Exchanges with the SUT

The requests a step makes, and what comes back: one reply, the last reply of a poll,
or the streams opened at once.

## Implementation notes

The dispatcher, the webhook receiver and the clock are operations on the state of the
world `σ`. A stream is a generator, so opening one does not raise. Streams that are open
at once are read side by side; the world answers with the script of each, which ends
where the reader's deadline would cut it.
-/

namespace A2aItk.Acts

open Python

abbrev Headers := List (String × String)

section Requests

/-- Whether an operation is answered with a stream. -/
def Operation.streaming : Operation → Bool
  | .sendStreamingMessage | .subscribeToTask => true
  | _ => false

/-- `d.pop(key, None)`. -/
def Fields.pop (fields : Fields) (key : String) : Fields :=
  fields.filter fun field => field.1 ≠ key

/-- `d[key] = v`. -/
def Fields.set (fields : Fields) (key : String) (v : Value) : Fields :=
  Dict.setEntry key v fields

/-- `d.setdefault(key, v)`. -/
def Fields.setDefault (fields : Fields) (key : String) (v : Value) : Fields :=
  if (fields.lookup key).isSome then fields else fields ++ [(key, v)]

/-- `setdefault` on the entries of a mapping. -/
def setDefaultEntry (key : Scalar) (v : Value) (entries : List (Scalar × Value)) :
    List (Scalar × Value) :=
  if (Value.lookup key entries).isSome then entries else entries ++ [(key, v)]

/-- Move `taskId` and `contextId` onto the message they qualify. -/
def foldIntoMessage (params : Fields) : Fields :=
  match params.lookup "message" with
  | some (.dict message) =>
      let moved := ["taskId", "contextId"].foldl (fun state name =>
        match Fields.lookup name state.1 with
        | some v => (Fields.pop state.1 name, setDefaultEntry (.str name) v state.2)
        | none => state) (params, message)
      Fields.set moved.1 "message" (.dict moved.2)
  | _ => params
where
  Fields.lookup (name : String) (fields : Fields) : Option Value := List.lookup name fields

/-- Lift a nested `pushNotificationConfig` to the top level. -/
def flattenPushConfig (params : Fields) : Fields :=
  let rest := params.pop "pushNotificationConfig"
  match params.lookup "pushNotificationConfig" with
  | some (.dict nested) =>
      nested.foldl (fun fields entry =>
        match entry.1 with
        | .str key => fields.setDefault key entry.2
        | _ => fields) rest
  | _ => rest

/-- Shape params as the operation's request message. -/
def adapt (operation : Operation) (params : Fields) : Fields :=
  match operation with
  | .sendMessage | .sendStreamingMessage => foldIntoMessage params
  | .createPushConfig => flattenPushConfig params
  | .getExtendedAgentCard => params.pop "extended"
  | _ => params

end Requests

/-- A request for streams. -/
inductive StreamRequest
  | operation (operation : Operation) (params : Fields) (headers : Headers)
  | raw (raw : RawBlock) (headers : Headers)

/-- How a stream ends: closed by the SUT, broken off by an exception, or still open
at the deadline. -/
inductive StreamEnding
  | closed
  | raised (e : Exception)
  | stalled

/-- What hanging up does. -/
inductive Closing
  | absent
  | returned
  | raised (e : Exception)

/-- What one stream delivers to its reader. -/
structure StreamScript where
  events : List StreamEvent
  ending : StreamEnding
  closing : Closing := .returned
  sourceType : String := "async_generator"

/-- A runner and the world it runs in. -/
structure Runner (σ : Type) where
  py : Interpreter
  binding : TransportBinding
  dispatch : Operation → Fields → Headers → EStateM Exception σ WireResponse
  dispatchRaw : RawBlock → Headers → EStateM Exception σ WireResponse
  /-- The script of each of the streams opened at once, to be read for this long. -/
  openStreams : StreamRequest → (count deadlineMs : ℕ) → σ → (ℕ → StreamScript) × σ
  readWebhook : Option (String → EStateM Exception σ (List Value))
  clock : σ → ℚ × σ
  sleep : ℚ → σ → σ
  newUuid : σ → String × σ
  environ : String → Option String
  vars : Dict String Value
  specVersion : String := "1.0"
  agentCard : Option Value := none
  sutBehaviors : Option (List String) := none
  capabilities : List RunnerRequirement := []
  streamTimeoutMs : ℕ := 30000

namespace Runner

variable {σ : Type} (runner : Runner σ)

def now : EStateM Exception σ ℚ := Effects.update runner.clock

def pause (seconds : ℚ) : EStateM Exception σ Unit :=
  Effects.update fun s => ((), runner.sleep seconds s)

def substitute (scope : Scope) (v : Value) : EStateM Exception σ Value :=
  scope.substitute runner.py runner.newUuid v

def substituteFields (scope : Scope) (fields : Fields) : EStateM Exception σ Fields :=
  scope.substituteFields runner.py runner.newUuid fields

/-- The headers of an abstract operation. -/
def headers : Headers := [("A2A-Version", runner.specVersion)]

/-- A raw request goes as the test wrote it. -/
def rawHeaders : Headers := []

/-- `_ensure_message_id`. -/
def ensureMessageId (params : Fields) : EStateM Exception σ Fields :=
  match params.lookup "message" with
  | some (.dict message) =>
      if ((Value.lookup (.str "messageId") message).getD .null).truthy then pure params
      else do
        let id ← Effects.update runner.newUuid
        pure (params.set "message"
          (.dict (Dict.setEntry (.str "messageId") (.str id) message)))
  | _ => pure params

/-- `_prepare_params`. -/
def prepareParams (operation : Operation) (params : Fields) (scope : Scope) :
    EStateM Exception σ Fields := do
  let substituted ← runner.substituteFields scope params
  runner.ensureMessageId (adapt operation substituted)

section Polling

/-- `_delay_seconds`. -/
def delaySeconds (baseMs attempt : ℕ) : Backoff → ℚ
  | .linear => baseMs * attempt / 1000
  | .exponential => baseMs * 2 ^ (attempt - 1) / 1000
  | .none => baseMs / 1000

/-- The attempts of a poll from a given one on, with `left` more to follow it. -/
def attempts (operation : Operation) (params : Fields) (expression : Value) (delayMs : ℕ)
    (backoff : Backoff) : (left attempt : ℕ) → EStateM Exception σ (WireResponse × ℕ × Bool)
  | left, attempt => do
      let response ← runner.dispatch operation params runner.headers
      if ← Effects.lift (evaluateUntil runner.py expression response.payload) then
        pure (response, attempt, true)
      else
        match left with
        | 0 => pure (response, attempt, false)
        | left + 1 => do
            runner.pause (delaySeconds delayMs attempt backoff)
            attempts operation params expression delayMs backoff left (attempt + 1)

/-- `_dispatch`: the last reply, how many attempts it took, and whether the condition
held. -/
def dispatchRepeatedly (operation : Operation) (params : Fields)
    (poll : Option (Repeat × Value)) : EStateM Exception σ (WireResponse × ℕ × Bool) :=
  match poll with
  | none => do
      let response ← runner.dispatch operation params runner.headers
      pure (response, 1, true)
  | some (block, expression) =>
      runner.attempts operation params expression (block.delayMs.getD 1000)
        (block.backoff.getD .none) (block.maxAttempts.getD 10 - 1) 1

end Polling

section Streaming

/-- `_declared_timeout_ms`, where a bound of zero is none. -/
def declaredTimeout (expect : Option ExpectStream) : Option ℕ :=
  (expect.bind fun block => block.timeoutMs).filter (· ≠ 0)

/-- The number of events after which reading stops. -/
def readLimit (expect : Option ExpectStream) (disconnectAfter : Option ℕ) : Option ℕ :=
  match (expect.bind fun block => block.maxCount).map (· + 1), disconnectAfter with
  | none, cut => cut
  | some limit, none => some limit
  | some limit, some cut => some (min limit cut)

/-- What was read of one stream: its events, its status, and whether it was still open
at the deadline. -/
structure Collected where
  events : List StreamedEvent
  status : Option ℤ
  timedOut : Bool

/-- `_hang_up`. -/
def hangUp (script : StreamScript) (required : Bool) : Except Exception Unit :=
  match script.closing with
  | .absent =>
      if required then .error (.dispatchError
        (s!"{script.sourceType} cannot be closed, so this binding cannot disconnect " ++
          "mid-stream"))
      else .ok ()
  | .returned => .ok ()
  | .raised e => if e.isRuntimeError then .ok () else .error e

/-- `_collect`. -/
def collect (script : StreamScript) (expect : Option ExpectStream) (disconnectAfter : Option ℕ) :
    Except Exception Collected := do
  let limit := readLimit expect disconnectAfter
  let cut := limit.any fun n => n ≤ script.events.length
  let read := if cut then script.events.take (limit.getD 0) else script.events
  let timedOut ←
    if cut then pure false
    else
      match script.ending with
      | .closed => pure false
      | .raised .timeoutError => pure true
      | .raised e => throw e
      | .stalled => pure true
  hangUp script disconnectAfter.isSome
  pure
    { events := read.map fun event => .normalize event.data event.index
      status := read.findSome? StreamEvent.status
      timedOut }

end Streaming

end Runner

end A2aItk.Acts
