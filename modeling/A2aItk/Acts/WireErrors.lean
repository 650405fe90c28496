import A2aItk.Acts.Wire
import A2aItk.Python.Objects

/-!
# Errors on the wire

`acts/wire_map.py` and the error readers of the three dispatchers: each binding spells
an error its own way, and each reader makes a `WireError` of it.

## Implementation notes

What a protobuf parser makes of bytes is the parameter `Protobuf`; `none` is its
`DecodeError`. The raw error object is left out.
-/

namespace A2aItk.Acts

open Python

section WireMap

/-- How one abstract error name appears on each binding. -/
structure ErrorBinding where
  jsonrpcCode : ℤ
  grpcStatus : Option String := none
  httpStatus : Option ℤ := none
  reason : Option String := none

/-- How each error is spelled on the wire. -/
def ErrorType.binding : ErrorType → ErrorBinding
  | taskNotFound => ⟨-32001, some "NOT_FOUND", some 404, some "TASK_NOT_FOUND"⟩
  | taskNotCancelable =>
      ⟨-32002, some "FAILED_PRECONDITION", some 400, some "TASK_NOT_CANCELABLE"⟩
  | pushNotificationNotSupported =>
      ⟨-32003, some "FAILED_PRECONDITION", some 400, some "PUSH_NOTIFICATION_NOT_SUPPORTED"⟩
  | unsupportedOperation =>
      ⟨-32004, some "FAILED_PRECONDITION", some 400, some "UNSUPPORTED_OPERATION"⟩
  | contentTypeNotSupported =>
      ⟨-32005, some "INVALID_ARGUMENT", some 400, some "CONTENT_TYPE_NOT_SUPPORTED"⟩
  | invalidAgentResponse => ⟨-32006, some "INTERNAL", some 500, some "INVALID_AGENT_RESPONSE"⟩
  | extendedAgentCardNotConfigured =>
      ⟨-32007, some "FAILED_PRECONDITION", some 400, some "EXTENDED_AGENT_CARD_NOT_CONFIGURED"⟩
  | extensionSupportRequired =>
      ⟨-32008, some "FAILED_PRECONDITION", some 400, some "EXTENSION_SUPPORT_REQUIRED"⟩
  | versionNotSupported =>
      ⟨-32009, some "FAILED_PRECONDITION", some 400, some "VERSION_NOT_SUPPORTED"⟩
  | jsonParse => { jsonrpcCode := -32700 }
  | invalidRequest => { jsonrpcCode := -32600 }
  | methodNotFound => { jsonrpcCode := -32601 }
  | invalidParams => { jsonrpcCode := -32602 }
  | internal => { jsonrpcCode := -32603 }

/-- The error with this JSON-RPC code. -/
def errorForJsonrpcCode (code : ℤ) : Option ErrorType :=
  ErrorType.all.find? fun e => e.binding.jsonrpcCode = code

/-- The error with this reason. -/
def errorForReason (reason : String) : Option ErrorType :=
  ErrorType.all.find? fun e => e.binding.reason = some reason

theorem errorForJsonrpcCode_binding (e : ErrorType) :
    errorForJsonrpcCode e.binding.jsonrpcCode = some e := by
  cases e <;> rfl

theorem errorForReason_binding {e : ErrorType} {reason : String}
    (h : e.binding.reason = some reason) : errorForReason reason = some e := by
  cases e <;> cases h <;> rfl

/-- `GRPC_STATUS_TO_HTTP`. -/
def grpcStatusToHttp : List (String × ℤ) :=
  [("OK", 200), ("CANCELLED", 499), ("UNKNOWN", 500), ("INVALID_ARGUMENT", 400),
    ("DEADLINE_EXCEEDED", 504), ("NOT_FOUND", 404), ("ALREADY_EXISTS", 409),
    ("PERMISSION_DENIED", 403), ("RESOURCE_EXHAUSTED", 429), ("FAILED_PRECONDITION", 400),
    ("ABORTED", 409), ("OUT_OF_RANGE", 400), ("UNIMPLEMENTED", 501), ("INTERNAL", 500),
    ("UNAVAILABLE", 503), ("DATA_LOSS", 500), ("UNAUTHENTICATED", 401)]

/-- The HTTP status that stands for a gRPC one. -/
def httpStatusForGrpc (status : String) : ℤ := (grpcStatusToHttp.lookup status).getD 500

/-- The ProtoJSON `@type` that marks an `ErrorInfo`. -/
def errorInfoType : String := "type.googleapis.com/google.rpc.ErrorInfo"

end WireMap

section Http

variable (py : Interpreter)

/-- Whether an element of a details array is an `ErrorInfo`. -/
def isErrorInfo (item : Value) : Bool :=
  match item.get? (.str "@type") with
  | some type => type.eq (.str errorInfoType)
  | none => false

/-- `_error_info`: the reason of the first `ErrorInfo`, and the array. -/
def errorInfo (details : Option Value) : Option String × List Value :=
  match details with
  | some (.list items) =>
      (((items.find? isErrorInfo).bind fun item => item.get? (.str "reason")).bind Value.text?,
        items)
  | _ => (none, [])

/-- `isinstance(v, int)`. -/
def int? : Value → Option ℤ
  | .scalar (.int i) => some i
  | .scalar (.bool b) => some (if b then 1 else 0)
  | _ => none

/-- The `error` member of a reply, where it is a mapping. -/
def errorMember (parsed : Value) : Option Value :=
  (parsed.get? (.str "error")).filter Value.isMapping

/-- `str(error.get('message', ''))`. -/
def messageOf (error : Value) : String := ((error.get? (.str "message")).getD (.str "")).text py

/-- `JsonRpcDispatcher._error_from`. -/
def jsonrpcErrorFrom (status : ℤ) (parsed : Value) : Option WireError :=
  match errorMember parsed with
  | some err =>
      let code := (err.get? (.str "code")).bind int?
      let info := errorInfo (err.get? (.str "data"))
      some {
        message := messageOf py err
        errorType := code.bind errorForJsonrpcCode
        jsonrpcCode := code
        reason := info.1
        details := info.2 }
  | none =>
      if 400 ≤ status then
        some { message := s!"HTTP {status} with no JSON-RPC error envelope" }
      else none

/-- The error a reason names, where one is given. -/
def namedBy (reason : Option String) : Option ErrorType :=
  (reason.filter (· ≠ "")).bind errorForReason

/-- `RestDispatcher._error_from`. -/
def restErrorFrom (status : ℤ) (parsed : Value) : Option WireError :=
  if status < 400 then none
  else match errorMember parsed with
    | some body =>
        let info := errorInfo (body.get? (.str "details"))
        some {
          message := messageOf py body
          errorType := namedBy info.1
          status := (body.get? (.str "status")).bind Value.text?
          reason := info.1
          details := info.2 }
    | none => some { message := s!"HTTP {status} with no google.rpc.Status body" }

end Http

section Grpc

/-- `google.rpc.ErrorInfo`. -/
structure ErrorInfo where
  reason : String
  domain : String
  metadata : List (String × String)

/-- `google.protobuf.Any`. -/
structure AnyMessage where
  typeUrl : String
  value : List UInt8

/-- The details of a serialized `google.rpc.Status`, and a serialized `ErrorInfo`. -/
structure Protobuf where
  parseStatus : List UInt8 → Option (List AnyMessage)
  parseErrorInfo : List UInt8 → Option ErrorInfo

/-- A value of the trailing metadata. -/
inductive TrailerValue
  | text (s : String)
  | bytes (b : List UInt8)

/-- A failed call. -/
structure RpcError where
  code : String
  details : Option String
  trailers : List (String × TrailerValue)

/-- The trailer that carries the details of an error. -/
def statusDetailsKey : String := "grpc-status-details-bin"

/-- `detail.Is(ErrorInfo.DESCRIPTOR)`: what follows the last slash of the type URL is
the name. -/
def AnyMessage.isErrorInfo (detail : AnyMessage) : Bool :=
  let parts := Text.split ['/'] detail.typeUrl.toList
  decide (1 < parts.length) && decide (parts.getLast? = some "google.rpc.ErrorInfo".toList)

/-- `MessageToDict` of an `ErrorInfo`: fields at their default are left out. -/
def ErrorInfo.json (info : ErrorInfo) : List (String × Value) :=
  (if info.reason = "" then [] else [("reason", .str info.reason)]) ++
  (if info.domain = "" then [] else [("domain", .str info.domain)]) ++
  (if info.metadata = [] then []
    else [("metadata", .object (info.metadata.map fun entry => (entry.1, .str entry.2)))])

variable (pb : Protobuf)

/-- The loop over the details, with the reason and the details met so far. -/
def collectDetails : List AnyMessage → Option String → List Value →
    Option (Option String × List Value)
  | [], reason, collected => some (reason.filter (· ≠ ""), collected)
  | detail :: rest, reason, collected =>
      if detail.isErrorInfo then
        (pb.parseErrorInfo detail.value).bind fun info =>
          collectDetails rest (if reason.getD "" = "" then some info.reason else reason)
            (collected ++ [.object info.json])
      else collectDetails rest reason (collected ++ [.object [("@type", .str detail.typeUrl)]])

/-- The first serialized status of the trailers. -/
def statusBlob : List (String × TrailerValue) → Option (List UInt8)
  | [] => none
  | (key, .bytes b) :: rest => if key = statusDetailsKey then some b else statusBlob rest
  | (_, .text _) :: rest => statusBlob rest

/-- The reason and the details of an error, if they can be decoded. -/
def reasonFromTrailers (exc : RpcError) : Option String × List Value :=
  (((statusBlob exc.trailers).bind pb.parseStatus).bind fun details =>
    collectDetails pb details none []).getD (none, [])

/-- The trailers that are texts. -/
def textTrailers (trailers : List (String × TrailerValue)) : List (String × String) :=
  trailers.filterMap fun field =>
    match field.2 with
    | .text s => some (field.1, s)
    | .bytes _ => none

/-- `_response_from_rpc_error`. -/
def responseFromRpcError (exc : RpcError) : WireResponse :=
  let info := reasonFromTrailers pb exc
  { status := httpStatusForGrpc exc.code
    error := some {
      message := exc.details.getD ""
      errorType := namedBy info.1
      status := some exc.code
      reason := info.1
      details := info.2 }
    headers := textTrailers exc.trailers }

end Grpc

end A2aItk.Acts
