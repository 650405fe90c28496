import A2aItk.Acts.Exchanges
import A2aItk.Acts.PathTemplates
import A2aItk.Acts.WireErrors

/-!
# The HTTP dispatchers

`acts/dispatcher/http_base.py`, `jsonrpc.py` and `rest.py`: a step becomes one HTTP request,
and the reply becomes a `WireResponse` or the script of a stream.

## Implementation notes

The HTTP client and `json.loads` are given. What `json.dumps` makes of a value is kept as the
value. A session remembers what was asked of the client and what came of it.
-/

namespace A2aItk.Acts

open Python

namespace Operation

/-- `OPERATIONS[operation].jsonrpc_method`. -/
def jsonrpcMethod : Operation → String
  | sendMessage => "SendMessage"
  | sendStreamingMessage => "SendStreamingMessage"
  | getTask => "GetTask"
  | listTasks => "ListTasks"
  | cancelTask => "CancelTask"
  | subscribeToTask => "SubscribeToTask"
  | getAgentCard => ""
  | getExtendedAgentCard => "GetExtendedAgentCard"
  | createPushConfig => "CreateTaskPushNotificationConfig"
  | getPushConfig => "GetTaskPushNotificationConfig"
  | listPushConfigs => "ListTaskPushNotificationConfigs"
  | deletePushConfig => "DeleteTaskPushNotificationConfig"

/-- `OPERATIONS[operation].rest_method`. -/
def restMethod : Operation → HttpMethod
  | sendMessage | sendStreamingMessage | cancelTask | subscribeToTask | createPushConfig => .post
  | getTask | listTasks | getAgentCard | getExtendedAgentCard | getPushConfig | listPushConfigs =>
      .get
  | deletePushConfig => .delete

/-- `OPERATIONS[operation].http_only`: only the agent card is fetched without a binding. -/
def httpOnly : Operation → Bool
  | getAgentCard => true
  | _ => false

/-- `resolve_operation`: the one param that selects a different operation. -/
def resolve (operation : Operation) (params : Fields) : Operation :=
  if operation = getAgentCard ∧ ((params.lookup "extended").getD .null).truthy then
    getExtendedAgentCard
  else operation

end Operation

section Http

/-- The content of a request: a text, or what `json.dumps` makes of a value. -/
inductive Content
  | text (s : String)
  | json (v : Value)

structure HttpRequest where
  method : HttpMethod
  url : String
  headers : Dict String String
  query : Option (Dict String String) := none
  content : Option Content := none

structure HttpReply where
  status : ℤ
  headers : Headers
  text : String

/-- What the client raises: an `httpx.HTTPError` with its name and text, or something else. -/
inductive ClientFailure
  | httpError (text : String)
  | raised (e : Exception)

/-- How the events of a response end. -/
inductive SseEnding
  | closed
  | sseError (message : String)
  | failed (failure : ClientFailure)
  | stalled

/-- An open response: its headers, the body in case it is read whole, and its events in case
they are read one by one, each with its data. -/
structure OpenReply where
  status : ℤ
  headers : Headers
  contentType : Option String
  body : Except ClientFailure String
  events : List String
  ending : SseEnding

/-- `httpx.AsyncClient`, and `json.loads` where `none` is its `ValueError`. An open response
is read for a number of milliseconds at most. -/
structure HttpClient (σ : Type) where
  request : HttpRequest → σ → Except ClientFailure HttpReply × σ
  stream : HttpRequest → (deadlineMs : ℕ) → σ → Except ClientFailure OpenReply × σ
  loads : String → Option Value

/-- What came of a request. -/
inductive HttpOutcome
  | reply (r : HttpReply)
  | opened (r : OpenReply)
  | failed (failure : ClientFailure)

/-- A dispatcher and its client: the next id of an envelope, and the exchanges so far. -/
structure Session (σ : Type) where
  nextId : ℕ := 1
  exchanges : List (HttpRequest × HttpOutcome) := []
  outside : σ

/-- What `_request` and `_stream_sse` make of a failure of the client. -/
def ClientFailure.exception : ClientFailure → Exception
  | httpError text => .dispatchError text
  | raised e => e

/-- What distinguishes a binding over HTTP. -/
structure Dialect where
  contentType : String
  errorFrom : ℤ → Value → Option WireError
  unwrap : Value → Value

structure HttpDispatcher (σ : Type) where
  py : Interpreter
  /-- Whether a character beyond ASCII belongs to a word. -/
  beyond : Char → Bool
  client : HttpClient σ
  dialect : Dialect
  baseUrl : String
  cardUrl : Option String := none
  defaultHeaders : Headers := []
  rpcPath : String := "/"

/-- `_is_sse` compares the media type and leaves its parameters. -/
def isSse (py : Interpreter) (contentType : Option String) : Bool :=
  let media := (Text.partition [';'] (contentType.getD "").toList).1
  py.lower (String.ofList (Text.strip media)) = "text/event-stream"

/-- With one more exchange. -/
def Session.after {σ : Type} (s : Session σ) (request : HttpRequest) (outcome : HttpOutcome)
    (outside : σ) : Session σ :=
  { s with exchanges := s.exchanges ++ [(request, outcome)], outside := outside }

namespace HttpDispatcher

variable {σ : Type} (d : HttpDispatcher σ)

/-- `agent_card_url or base_url`, without the slashes it ends in. -/
def agentCardUrl : String :=
  let url := (d.cardUrl.filter (· ≠ "")).getD d.baseUrl
  String.ofList (Text.rstripChar '/' url.toList)

/-- `_url`: `/` is the URL of the card verbatim, and any other path is joined with one slash. -/
def url (path : String) : String :=
  if path = "/" then d.baseUrl
  else String.ofList (Text.rstripChar '/' d.baseUrl.toList ++
    if path.toList.head? = some '/' then path.toList else '/' :: path.toList)

/-- `_headers`: the step wins. -/
def headers (given : Headers) (contentType accept : Option String) (defaults : Bool) :
    Dict String String :=
  let merged := if defaults then Dict.ofList d.defaultHeaders else Dict.empty
  let typed := (contentType.filter (· ≠ "")).elim merged (merged.set "Content-Type")
  let accepting := (accept.filter (· ≠ "")).elim typed (typed.set "Accept")
  accepting.update given

/-- `parse_json_body`: a body that is no JSON is no error. -/
def parseJsonBody (text : String) : Value :=
  if Text.strip text.toList = [] then .null else (d.client.loads text).getD .null

/-- `_request`: an error status is a result. -/
def send (request : HttpRequest) : EStateM Exception (Session σ) HttpReply := fun s =>
  match d.client.request request s.outside with
  | (.ok reply, outside) => .ok reply (s.after request (.reply reply) outside)
  | (.error failure, outside) =>
      .error failure.exception (s.after request (.failed failure) outside)

/-- A reply that is handed on as it is parsed. -/
def replied (status : ℤ) (headers : Headers) (text : String) : WireResponse :=
  let parsed := d.parseJsonBody text
  { status, payload := parsed, error := d.dialect.errorFrom status parsed, headers }

/-- The GET of the agent card. -/
def cardRequest (headers : Headers) : HttpRequest where
  method := .get
  url := d.agentCardUrl ++ "/.well-known/agent-card.json"
  headers := d.headers headers none none true

/-- `_get_agent_card`. -/
def getAgentCard (headers : Headers) : EStateM Exception (Session σ) WireResponse := do
  let reply ← d.send (d.cardRequest headers)
  pure (d.replied reply.status reply.headers reply.text)

/-- The content of a hand-built request. -/
def rawContent (raw : RawBlock) : Option Content :=
  match raw.bodyRaw with
  | some text => some (.text text)
  | none => if raw.body.isNull then none else some (.json raw.body)

/-- A hand-built request: the defaults of the dispatcher stay out of it. -/
def rawRequest (raw : RawBlock) (headers : Headers) : HttpRequest where
  method := raw.method
  url := d.url raw.path
  headers := (d.headers headers none none false).update (raw.headers.getD [])
  content := rawContent raw

/-- `dispatch_raw`: the payload is the whole body. -/
def dispatchRaw (raw : RawBlock) (headers : Headers) :
    EStateM Exception (Session σ) WireResponse := do
  let reply ← d.send (d.rawRequest raw headers)
  pure (d.replied reply.status reply.headers reply.text)

section Streams

/-- `SSE_CONTENT_TYPE`, and the types of a refusal. -/
def accepted : String := "text/event-stream, application/json, application/a2a+json"

/-- The request of a streaming call. -/
def streamRequest (method : HttpMethod) (path : String) (headers : Headers)
    (content : Option Content) (defaults : Bool) : HttpRequest where
  method := method
  url := d.url path
  headers := d.headers headers (some d.dialect.contentType) (some accepted) defaults
  content := content

/-- The events of a stream, parsed and numbered. -/
def streamEvents (status : ℤ) (unwrap : Bool) (events : List String) : List StreamEvent :=
  events.mapIdx fun index data =>
    let parsed := (d.client.loads data).getD .null
    { index, data := if unwrap then d.dialect.unwrap parsed else parsed, status := some status }

/-- How a stream ends for its reader. The wrong content type is an answer. -/
def endingOf : SseEnding → StreamEnding
  | .closed => .closed
  | .sseError message => .raised (.malformedResponse message)
  | .failed failure => .raised failure.exception
  | .stalled => .stalled

/-- A reply that opens no stream, as the ordinary one it is. -/
def refusal (reply : OpenReply) : Exception :=
  match reply.body with
  | .error failure => failure.exception
  | .ok text => .streamNotOpened
      ("the SUT answered a streaming request with content type " ++
        Text.repr (reply.contentType.getD "<none>") ++ " instead of opening a stream")
      (d.replied reply.status reply.headers text)

/-- What a reader gets of an open response. -/
def scriptOf (unwrap : Bool) (reply : OpenReply) : StreamScript :=
  if isSse d.py reply.contentType then
    { events := d.streamEvents reply.status unwrap reply.events, ending := endingOf reply.ending }
  else { events := [], ending := .raised (d.refusal reply) }

/-- `_stream_sse`. -/
def streamSse (request : HttpRequest) (unwrap : Bool) (deadlineMs : ℕ) (s : Session σ) :
    StreamScript × Session σ :=
  match d.client.stream request deadlineMs s.outside with
  | (.ok reply, outside) => (d.scriptOf unwrap reply, s.after request (.opened reply) outside)
  | (.error failure, outside) =>
      ({ events := [], ending := .raised failure.exception },
        s.after request (.failed failure) outside)

/-- `stream_raw`: the events stay wrapped. -/
def streamRaw (raw : RawBlock) (headers : Headers) (deadlineMs : ℕ) (s : Session σ) :
    StreamScript × Session σ :=
  let request := d.streamRequest raw.method raw.path
    ((d.headers headers none none false).update (raw.headers.getD [])).entries (rawContent raw)
    false
  d.streamSse request false deadlineMs s

/-- `_streaming_binding`. -/
def notStreaming (operation : Operation) : Exception :=
  .dispatchError (operation.value ++ " is not a streaming operation; use dispatch()")

end Streams

end HttpDispatcher

end Http

section JsonRpc

/-- `JsonRpcDispatcher._unwrap_stream_event`: the event is the `result` of its envelope. -/
def jsonrpcUnwrap (data : Value) : Value :=
  (data.get? (.str "result")).getD data

def jsonrpcDialect (py : Interpreter) : Dialect where
  contentType := "application/json"
  errorFrom := jsonrpcErrorFrom py
  unwrap := jsonrpcUnwrap

namespace JsonRpc

variable {σ : Type} (d : HttpDispatcher σ)

/-- `_envelope`, with its id. -/
def envelope (id : ℕ) (operation : Operation) (params : Fields) : Value :=
  .object [("jsonrpc", .str "2.0"), ("id", .int id), ("method", .str operation.jsonrpcMethod),
    ("params", .object (adapt operation params))]

/-- `next(self._ids)`. -/
def takeId : EStateM Exception (Session σ) ℕ :=
  Effects.update fun s => (s.nextId, { s with nextId := s.nextId + 1 })

/-- The POST of a call. -/
def callRequest (id : ℕ) (operation : Operation) (params : Fields) (headers : Headers) :
    HttpRequest where
  method := .post
  url := d.url d.rpcPath
  headers := d.headers headers (some d.dialect.contentType) none true
  content := some (.json (envelope id operation params))

/-- `JsonRpcDispatcher.dispatch`: the payload is the `result` of the envelope. -/
def dispatch (operation : Operation) (params : Fields) (headers : Headers) :
    EStateM Exception (Session σ) WireResponse := do
  let operation := operation.resolve params
  if operation.httpOnly then d.getAgentCard headers
  else do
    let id ← takeId
    let reply ← d.send (callRequest d id operation params headers)
    let response := d.replied reply.status reply.headers reply.text
    pure { response with payload := (response.payload.get? (.str "result")).getD .null }

/-- `JsonRpcDispatcher.stream`. -/
def stream (operation : Operation) (params : Fields) (headers : Headers) (deadlineMs : ℕ)
    (s : Session σ) : StreamScript × Session σ :=
  if operation.streaming then
    let content := Content.json (envelope s.nextId operation params)
    d.streamSse (d.streamRequest .post d.rpcPath headers (some content) true) true deadlineMs
      { s with nextId := s.nextId + 1 }
  else ({ events := [], ending := .raised (HttpDispatcher.notStreaming operation) }, s)

end JsonRpc

end JsonRpc

section Rest

def restDialect (py : Interpreter) : Dialect where
  contentType := "application/a2a+json"
  errorFrom := restErrorFrom py
  unwrap := id

namespace Rest

variable {σ : Type} (d : HttpDispatcher σ)

/-- `_split_params`: the path, and the params that are left. -/
def splitParams (operation : Operation) (params : Fields) :
    Except PyError (String × Dict String Value) :=
  PathTemplate.formatPath d.py d.beyond operation.restPath
    (Dict.ofList (adapt operation params))

/-- `_QUERY_METHODS`. -/
def queryMethods : List HttpMethod := [.get, .delete]

/-- How a query spells a param. -/
def queryText (py : Interpreter) : Value → String
  | .scalar (.bool b) => if b then "true" else "false"
  | v => v.text py

/-- `_stringify`. -/
def stringify (params : Dict String Value) : Dict String String :=
  Dict.ofList (params.entries.map fun entry => (entry.1, queryText d.py entry.2))

/-- The rest of the params, as a query or as a body. -/
def callRequest (operation : Operation) (path : String) (rest : Dict String Value)
    (headers : Headers) : HttpRequest where
  method := operation.restMethod
  url := d.url path
  headers := d.headers headers (some d.dialect.contentType) none true
  query :=
    if operation.restMethod ∈ queryMethods ∧ rest.entries ≠ [] then some (stringify d rest)
    else none
  content :=
    if operation.restMethod ∉ queryMethods ∧ rest.entries ≠ [] then
      some (.json (.object rest.entries))
    else none

/-- `RestDispatcher.dispatch`. -/
def dispatch (operation : Operation) (params : Fields) (headers : Headers) :
    EStateM Exception (Session σ) WireResponse := do
  let operation := operation.resolve params
  if operation.httpOnly then d.getAgentCard headers
  else do
    let (path, rest) ← Effects.lift (Except.mapError .builtin (splitParams d operation params))
    let reply ← d.send (callRequest d operation path rest headers)
    pure (d.replied reply.status reply.headers reply.text)

/-- `RestDispatcher.stream`. -/
def stream (operation : Operation) (params : Fields) (headers : Headers) (deadlineMs : ℕ)
    (s : Session σ) : StreamScript × Session σ :=
  if operation.streaming then
    match splitParams d operation params with
    | .error e => ({ events := [], ending := .raised (.builtin e) }, s)
    | .ok (path, rest) =>
        let content := Content.json (.object rest.entries)
        d.streamSse (d.streamRequest operation.restMethod path headers (some content) true) true
          deadlineMs s
  else ({ events := [], ending := .raised (HttpDispatcher.notStreaming operation) }, s)

end Rest

end Rest

end A2aItk.Acts
