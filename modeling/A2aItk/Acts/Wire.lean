import A2aItk.Python.Exceptions
import A2aItk.Python.Value

/-!
# What a dispatcher returns and raises

The abstract error names, the reply of a call normalized across bindings, and
the exceptions that can reach the runner.
-/

namespace A2aItk.Acts

open Python

/-- Abstract A2A error name. -/
inductive ErrorType
  | taskNotFound
  | taskNotCancelable
  | pushNotificationNotSupported
  | unsupportedOperation
  | contentTypeNotSupported
  | invalidAgentResponse
  | extendedAgentCardNotConfigured
  | extensionSupportRequired
  | versionNotSupported
  | jsonParse
  | invalidRequest
  | methodNotFound
  | invalidParams
  | internal
  deriving DecidableEq

namespace ErrorType

def all : List ErrorType :=
  [taskNotFound, taskNotCancelable, pushNotificationNotSupported, unsupportedOperation,
    contentTypeNotSupported, invalidAgentResponse, extendedAgentCardNotConfigured,
    extensionSupportRequired, versionNotSupported, jsonParse, invalidRequest, methodNotFound,
    invalidParams, internal]

def value : ErrorType → String
  | taskNotFound => "TaskNotFoundError"
  | taskNotCancelable => "TaskNotCancelableError"
  | pushNotificationNotSupported => "PushNotificationNotSupportedError"
  | unsupportedOperation => "UnsupportedOperationError"
  | contentTypeNotSupported => "ContentTypeNotSupportedError"
  | invalidAgentResponse => "InvalidAgentResponseError"
  | extendedAgentCardNotConfigured => "ExtendedAgentCardNotConfiguredError"
  | extensionSupportRequired => "ExtensionSupportRequiredError"
  | versionNotSupported => "VersionNotSupportedError"
  | jsonParse => "JSONParseError"
  | invalidRequest => "InvalidRequestError"
  | methodNotFound => "MethodNotFoundError"
  | invalidParams => "InvalidParamsError"
  | internal => "InternalError"

/-- `ERROR_TYPE_NAMES`. -/
def names : List String := all.map value

end ErrorType

/-- An error the SUT returned, normalized across bindings. -/
structure WireError where
  message : String
  errorType : Option ErrorType := none
  jsonrpcCode : Option ℤ := none
  status : Option String := none
  reason : Option String := none
  details : List Value := []

/-- One non-streaming reply, normalized across bindings. -/
structure WireResponse where
  status : ℤ
  payload : Value := .null
  error : Option WireError := none
  headers : List (String × String) := []

/-- One event from a streaming call. -/
structure StreamEvent where
  index : ℕ
  data : Value
  status : Option ℤ := none

/-- The exceptions a run meets. `StreamNotOpened` is a `MalformedResponse`, and
that one and `UnsupportedByBinding` are `DispatchError`s. -/
inductive Exception
  | dispatchError (message : String)
  | unsupportedByBinding (message : String)
  | malformedResponse (message : String)
  | streamNotOpened (message : String) (response : WireResponse)
  | unresolvedVariable (message : String)
  | pathError (message : String)
  | untilError (message : String)
  | runError (message : String)
  /-- pydantic's `ValidationError`. -/
  | validationError
  /-- `re.error`: a pattern that does not compile. -/
  | patternError
  | timeoutError
  | builtin (e : PyError)

namespace Exception

/-- What `except DispatchError` catches. -/
def isDispatchError : Exception → Bool
  | dispatchError _ | unsupportedByBinding _ | malformedResponse _ | streamNotOpened _ _ => true
  | _ => false

/-- What `except MalformedResponse` catches. -/
def isMalformedResponse : Exception → Bool
  | malformedResponse _ | streamNotOpened _ _ => true
  | _ => false

/-- What `except (UnresolvedVariable, PathError)` catches. -/
def isUnresolvedOrPath : Exception → Bool
  | unresolvedVariable _ | pathError _ => true
  | _ => false

/-- What `except RuntimeError` catches: a `DispatchError` is one. -/
def isRuntimeError : Exception → Bool
  | runError _ => true
  | builtin (.runtimeError _) => true
  | e => e.isDispatchError

/-- `str(exc)`, for the exceptions that carry a message. -/
def message : Exception → String
  | dispatchError m | unsupportedByBinding m | malformedResponse m | streamNotOpened m _
  | unresolvedVariable m | pathError m | untilError m | runError m => m
  | _ => ""

end Exception

end A2aItk.Acts
