import A2aItk.Acts.Runner
import A2aItk.Acts.WireErrors

/-!
# One error on three bindings

An error of the protocol, as an agent spells it on each binding, and what the runner
observes of it. The name, the message, and the number and types of the details are the
same; the `ErrorInfo` has its type over the two HTTP bindings only.
-/

namespace A2aItk.Acts

open Python

section Errors

/-- A detail that is no `ErrorInfo`: its type and its fields. -/
structure OtherDetail where
  typeUrl : String
  fields : List (String × Value)
  notErrorInfo : AnyMessage.isErrorInfo ⟨typeUrl, []⟩ = false

/-- An A2A-specific error: its name, its message, and its details, of which one is the
`ErrorInfo`. -/
structure A2aError where
  type : ErrorType
  reason : String
  specific : type.binding.reason = some reason
  message : String
  domain : String
  metadata : List (String × String)
  before : List OtherDetail
  after : List OtherDetail

namespace A2aError

variable (e : A2aError)

/-- The error as an `ErrorInfo`. -/
def info : ErrorInfo := ⟨e.reason, e.domain, e.metadata⟩

/-- Its details, the `ErrorInfo` among them. -/
def details : List (OtherDetail ⊕ ErrorInfo) :=
  e.before.map .inl ++ [.inr e.info] ++ e.after.map .inl

/-- A detail as ProtoJSON writes it. -/
def tagged (typeUrl : String) (fields : List (String × Value)) : Value :=
  .object (("@type", .str typeUrl) :: fields)

/-- Its details as both JSON bindings send them. -/
def jsonDetails : List Value :=
  (e.before.map fun d => tagged d.typeUrl d.fields) ++ [tagged errorInfoType e.info.json] ++
    e.after.map fun d => tagged d.typeUrl d.fields

/-- The envelope of a JSON-RPC error, with the details as its data. -/
def jsonrpcBody (id : Value) : Value :=
  .object [("jsonrpc", .str "2.0"), ("id", id), ("error", .object [
    ("code", .int e.type.binding.jsonrpcCode), ("message", .str e.message),
    ("data", .list e.jsonDetails)])]

/-- The `google.rpc.Status` body of an HTTP error. -/
def statusBody : Value :=
  .object [("error", .object [
    ("code", .int (e.type.binding.httpStatus.getD 500)),
    ("status", .str (e.type.binding.grpcStatus.getD "UNKNOWN")), ("message", .str e.message),
    ("details", .list e.jsonDetails)])]

/-- The serialized detail is this one. -/
inductive Serializes (pb : Protobuf) : OtherDetail ⊕ ErrorInfo → AnyMessage → Prop
  | other (d : OtherDetail) (value : List UInt8) : Serializes pb (.inl d) ⟨d.typeUrl, value⟩
  | info {i : ErrorInfo} {value : List UInt8} (h : pb.parseErrorInfo value = some i) :
      Serializes pb (.inr i) ⟨errorInfoType, value⟩

/-- The failed call whose trailers carry the error as a serialized status. -/
structure Fails (pb : Protobuf) (exc : RpcError) : Prop where
  code : e.type.binding.grpcStatus = some exc.code
  message : exc.details = some e.message
  trailers : ∃ blob details, statusBlob exc.trailers = some blob ∧
    pb.parseStatus blob = some details ∧
    List.Forall₂ (Serializes pb) e.details details

end A2aError

/-- What is observed of an error twice is the same, up to a relation on the element
that is its `ErrorInfo`. -/
structure SameUpTo (R : Value → Value → Prop) (e : A2aError) (a b : WireError) : Prop where
  errorType : a.observed.lookup "error_type" = b.observed.lookup "error_type"
  message : a.observed.lookup "message" = b.observed.lookup "message"
  others : (a.details.eraseIdx e.before.length).map (fun d => d.get? (.str "@type")) =
    (b.details.eraseIdx e.before.length).map fun d => d.get? (.str "@type")
  info : ∃ v w, a.details[e.before.length]? = some v ∧ b.details[e.before.length]? = some w ∧ R v w

/-- The name, the message, the `ErrorInfo`, and the number and types of the other details
are observed alike. -/
def SameObserved (e : A2aError) (a b : WireError) : Prop :=
  SameUpTo (fun v w => v.eq w = true) e a b

/-- The second element is the first one without its type. -/
def Untyped (v w : Value) : Prop :=
  ∃ fields, v = A2aError.tagged errorInfoType fields ∧ w = .object fields

variable {e : A2aError} {py : Interpreter} {pb : Protobuf} {exc : RpcError}

/-- An `ErrorInfo` is known by its type. -/
theorem isErrorInfo_tagged (typeUrl : String) (fields : List (String × Value)) :
    isErrorInfo (A2aError.tagged typeUrl fields) = decide (typeUrl = errorInfoType) := by
  have hlookup : (A2aError.tagged typeUrl fields).get? (.str "@type") = some (.str typeUrl) := by
    simp only [A2aError.tagged, Value.object, Value.get?, Value.lookup_object]
    rfl
  rw [isErrorInfo, hlookup]
  simp [Value.eq, Scalar.eq, Scalar.number?]

/-- No other detail has that type. -/
theorem typeUrl_ne (d : OtherDetail) : d.typeUrl ≠ errorInfoType := by
  intro h
  have hno := d.notErrorInfo
  rw [h] at hno
  revert hno
  decide

/-- The HTTP readers name the reason of the `ErrorInfo` and keep the array. -/
theorem errorInfo_jsonDetails (hreason : e.reason ≠ "") :
    errorInfo (some (.list e.jsonDetails)) = (some e.reason, e.jsonDetails) := by
  have hothers : ∀ l : List OtherDetail,
      (l.map fun d => A2aError.tagged d.typeUrl d.fields).find? isErrorInfo = none := by
    intro l
    rw [List.find?_eq_none]
    intro item hitem
    obtain ⟨d, -, rfl⟩ := List.mem_map.mp hitem
    simp [isErrorInfo_tagged, typeUrl_ne]
  have hfind : e.jsonDetails.find? isErrorInfo =
      some (A2aError.tagged errorInfoType e.info.json) := by
    rw [A2aError.jsonDetails, List.append_assoc, List.find?_append, hothers, Option.none_or,
      List.singleton_append, List.find?_cons, isErrorInfo_tagged]
    simp
  have hlookup : (A2aError.tagged errorInfoType e.info.json).get? (.str "reason") =
      some (.str e.reason) := by
    simp only [A2aError.tagged, Value.object, Value.get?, Value.lookup_object, ErrorInfo.json,
      A2aError.info, hreason, if_false]
    rfl
  simp only [errorInfo, hfind, Option.bind_some, hlookup]
  rfl

/-- What a gRPC detail is collected as. -/
def collectedAs : OtherDetail ⊕ ErrorInfo → Value
  | .inl d => .object [("@type", .str d.typeUrl)]
  | .inr i => .object i.json

/-- The reason after a detail. -/
def reasonAfter (reason : Option String) : OtherDetail ⊕ ErrorInfo → Option String
  | .inl _ => reason
  | .inr i => if reason.getD "" = "" then some i.reason else reason

/-- Details are collected in order; the last reason that is not empty is kept. -/
theorem collectDetails_eq {ds : List (OtherDetail ⊕ ErrorInfo)} {details : List AnyMessage}
    (h : List.Forall₂ (A2aError.Serializes pb) ds details) (reason : Option String)
    (collected : List Value) :
    collectDetails pb details reason collected =
      some ((ds.foldl reasonAfter reason).filter (· ≠ ""), collected ++ ds.map collectedAs) := by
  induction h generalizing reason collected with
  | nil => simp [collectDetails]
  | cons hd _ ih =>
      cases hd with
      | other d value =>
          have hno : AnyMessage.isErrorInfo ⟨d.typeUrl, value⟩ = false := d.notErrorInfo
          rw [collectDetails, hno, if_neg Bool.false_ne_true, ih]
          simp [reasonAfter, collectedAs]
      | @info i value hparse =>
          have hyes : AnyMessage.isErrorInfo ⟨errorInfoType, value⟩ = true := by
            change AnyMessage.isErrorInfo ⟨errorInfoType, []⟩ = true
            decide
          rw [collectDetails, hyes, if_pos rfl, hparse, Option.bind_some, ih]
          simp [reasonAfter, collectedAs]

/-- Other details give no reason. -/
theorem foldl_reasonAfter_others (l : List OtherDetail) (reason : Option String) :
    (l.map Sum.inl).foldl reasonAfter reason = reason := by
  induction l with
  | nil => rfl
  | cons d rest ih => exact ih

/-- The gRPC reader names the reason of the `ErrorInfo` too; of the array it keeps the
types of the others, and the `ErrorInfo` without its type. -/
theorem reasonFromTrailers_of_fails (hreason : e.reason ≠ "") (h : e.Fails pb exc) :
    reasonFromTrailers pb exc = (some e.reason,
      e.before.map (collectedAs ∘ .inl) ++ [.object e.info.json] ++
        e.after.map (collectedAs ∘ .inl)) := by
  obtain ⟨blob, details, hblob, hparse, hdetails⟩ := h.trailers
  have hnamed : e.details.foldl reasonAfter none = some e.reason := by
    rw [A2aError.details, List.foldl_append, List.foldl_append, foldl_reasonAfter_others,
      foldl_reasonAfter_others]
    rfl
  rw [reasonFromTrailers, hblob, Option.bind_some, hparse, Option.bind_some,
    collectDetails_eq hdetails, hnamed]
  simp [hreason, A2aError.details, collectedAs]

/-- The reason of an error is no empty text. -/
theorem reason_ne (e : A2aError) : e.reason ≠ "" := by
  have hspecific := e.specific
  intro h
  rw [h] at hspecific
  revert hspecific
  cases e.type <;> decide

/-- The error as it is read over JSON-RPC. -/
def A2aError.overJsonrpc (e : A2aError) : WireError where
  message := e.message
  errorType := some e.type
  jsonrpcCode := some e.type.binding.jsonrpcCode
  reason := some e.reason
  details := e.jsonDetails

/-- The error as it is read over REST. -/
def A2aError.overRest (e : A2aError) : WireError where
  message := e.message
  errorType := some e.type
  status := some (e.type.binding.grpcStatus.getD "UNKNOWN")
  reason := some e.reason
  details := e.jsonDetails

/-- The error as it is read from a failed call. -/
def A2aError.overGrpc (e : A2aError) (code : String) : WireError where
  message := e.message
  errorType := some e.type
  status := some code
  reason := some e.reason
  details := e.before.map (collectedAs ∘ .inl) ++ [.object e.info.json] ++
    e.after.map (collectedAs ∘ .inl)

/-- What is read of the error over JSON-RPC. -/
theorem jsonrpcErrorFrom_body (status : ℤ) (id : Value) :
    jsonrpcErrorFrom py status (e.jsonrpcBody id) = some e.overJsonrpc := by
  have herror : errorMember (e.jsonrpcBody id) = some (.object [
      ("code", .int e.type.binding.jsonrpcCode), ("message", .str e.message),
      ("data", .list e.jsonDetails)]) := rfl
  have hcode : ((Value.object [("code", .int e.type.binding.jsonrpcCode),
      ("message", .str e.message), ("data", .list e.jsonDetails)]).get? (.str "code")) =
      some (.int e.type.binding.jsonrpcCode) := rfl
  have hdata : ((Value.object [("code", .int e.type.binding.jsonrpcCode),
      ("message", .str e.message), ("data", .list e.jsonDetails)]).get? (.str "data")) =
      some (.list e.jsonDetails) := rfl
  simp only [jsonrpcErrorFrom, herror, hcode, hdata, errorInfo_jsonDetails (reason_ne e),
    Option.bind_some, int?, errorForJsonrpcCode_binding]
  rfl

/-- The reason names the error. -/
theorem namedBy_reason (e : A2aError) : namedBy (some e.reason) = some e.type := by
  rw [namedBy, Option.filter_some, if_pos (by simpa using reason_ne e), Option.bind_some,
    errorForReason_binding e.specific]

/-- What is read of it over REST. -/
theorem restErrorFrom_body {status : ℤ} (hstatus : 400 ≤ status) :
    restErrorFrom py status e.statusBody = some e.overRest := by
  have herror : errorMember e.statusBody = some (.object [
      ("code", .int (e.type.binding.httpStatus.getD 500)),
      ("status", .str (e.type.binding.grpcStatus.getD "UNKNOWN")), ("message", .str e.message),
      ("details", .list e.jsonDetails)]) := rfl
  have hdetails : ((Value.object [("code", .int (e.type.binding.httpStatus.getD 500)),
      ("status", .str (e.type.binding.grpcStatus.getD "UNKNOWN")), ("message", .str e.message),
      ("details", .list e.jsonDetails)]).get? (.str "details")) = some (.list e.jsonDetails) := rfl
  rw [restErrorFrom, if_neg (by omega), herror]
  simp only [hdetails, errorInfo_jsonDetails (reason_ne e), namedBy_reason]
  rfl

/-- What is read of it over gRPC. -/
theorem responseFromRpcError_of_fails (h : e.Fails pb exc) :
    (responseFromRpcError pb exc).error = some (e.overGrpc exc.code) := by
  simp only [responseFromRpcError, reasonFromTrailers_of_fails (reason_ne e) h, namedBy_reason,
    h.message]
  rfl

/-- The type of a detail is read off its tag. -/
theorem get?_type_tagged (typeUrl : String) (fields : List (String × Value)) :
    (A2aError.tagged typeUrl fields).get? (.str "@type") = some (.str typeUrl) := by
  simp only [A2aError.tagged, Value.object, Value.get?, Value.lookup_object]
  rfl

/-- Leaving out the element in the middle. -/
theorem eraseIdx_middle {α : Type*} (l r : List α) (a : α) :
    (l ++ [a] ++ r).eraseIdx l.length = l ++ r := by
  rw [List.append_assoc, List.eraseIdx_append_of_length_le le_rfl, Nat.sub_self]
  rfl

/-- Reading the element in the middle. -/
theorem getElem?_middle {α : Type*} (l r : List α) (a : α) :
    (l ++ [a] ++ r)[l.length]? = some a := by
  simp

/-- The details agree outside the `ErrorInfo`, and there as its two spellings do. -/
theorem sameUpTo_of_details {R : Value → Value → Prop} {a b : WireError} {v w : Value}
    (spell spell' : OtherDetail → Value) (htype : a.errorType = b.errorType)
    (hmessage : a.message = b.message)
    (ha : a.details = e.before.map spell ++ [v] ++ e.after.map spell)
    (hb : b.details = e.before.map spell' ++ [w] ++ e.after.map spell')
    (hspell : ∀ d, (spell d).get? (.str "@type") = (spell' d).get? (.str "@type")) (hR : R v w) :
    SameUpTo R e a b := by
  have hlen (spell : OtherDetail → Value) : e.before.length = (e.before.map spell).length := by simp
  constructor
  · unfold WireError.observed
    rw [htype]
    cases b.errorType <;> cases a.jsonrpcCode <;> cases b.jsonrpcCode <;> rfl
  · unfold WireError.observed
    rw [hmessage]
    rfl
  · rw [ha, hb]
    nth_rewrite 1 [hlen spell]
    rw [hlen spell', eraseIdx_middle, eraseIdx_middle]
    have hcomp : (fun d => d.get? (.str "@type")) ∘ spell =
        (fun d => d.get? (.str "@type")) ∘ spell' := funext hspell
    simp only [List.map_append, List.map_map, hcomp]
  · refine ⟨v, w, ?_, ?_, hR⟩
    · rw [ha, hlen spell, getElem?_middle]
    · rw [hb, hlen spell', getElem?_middle]

/-- A detail with a tag is none without. -/
theorem tagged_ne (fields : List (String × Value)) :
    (A2aError.tagged errorInfoType fields).eq (.object fields) = false := by
  simp [A2aError.tagged, Value.object, Value.eq]

/-- A detail that has lost its tag is seen as another. -/
theorem not_sameObserved_of_untyped {a b : WireError} (h : SameUpTo Untyped e a b) :
    ¬ SameObserved e a b := by
  intro hsame
  obtain ⟨v, w, hv, hw, fields, rfl, rfl⟩ := h.info
  obtain ⟨v', w', hv', hw', heq⟩ := hsame.info
  obtain rfl := Option.some.inj (hv.symm.trans hv')
  obtain rfl := Option.some.inj (hw.symm.trans hw')
  rw [tagged_ne] at heq
  cases heq

/-- The HTTP status of an error is 400 or above. -/
theorem httpStatus_ge (e : A2aError) : 400 ≤ e.type.binding.httpStatus.getD 500 := by
  cases e.type <;> decide

/-- No error is observed over gRPC as over the other two bindings, for its `ErrorInfo`
comes without its type there; otherwise the three agree. -/
theorem bindings_disagree (h : e.Fails pb exc) (status : ℤ) (id : Value) :
    ∃ j r g, jsonrpcErrorFrom py status (e.jsonrpcBody id) = some j ∧
      restErrorFrom py (e.type.binding.httpStatus.getD 500) e.statusBody = some r ∧
      (responseFromRpcError pb exc).error = some g ∧
      ¬ SameObserved e j g ∧ ¬ SameObserved e r g ∧
      SameUpTo (fun v w => v = w) e j r ∧ SameUpTo Untyped e j g ∧ SameUpTo Untyped e r g := by
  have hspell (d : OtherDetail) : (A2aError.tagged d.typeUrl d.fields).get? (.str "@type") =
      ((collectedAs ∘ Sum.inl) d).get? (.str "@type") := by
    rw [get?_type_tagged]
    rfl
  have huntyped : Untyped (A2aError.tagged errorInfoType e.info.json) (.object e.info.json) :=
    ⟨_, rfl, rfl⟩
  have hjr : SameUpTo (fun v w => v = w) e e.overJsonrpc e.overRest :=
    sameUpTo_of_details _ _ rfl rfl rfl rfl (fun _ => rfl) rfl
  have hjg : SameUpTo Untyped e e.overJsonrpc (e.overGrpc exc.code) :=
    sameUpTo_of_details _ _ rfl rfl rfl rfl hspell huntyped
  have hrg : SameUpTo Untyped e e.overRest (e.overGrpc exc.code) :=
    sameUpTo_of_details _ _ rfl rfl rfl rfl hspell huntyped
  exact ⟨e.overJsonrpc, e.overRest, e.overGrpc exc.code, jsonrpcErrorFrom_body status id,
    restErrorFrom_body (httpStatus_ge e), responseFromRpcError_of_fails h,
    not_sameObserved_of_untyped hjg, not_sameObserved_of_untyped hrg, hjr, hjg, hrg⟩

section NotFound

/-- The bytes of a text in ASCII. -/
def ascii (s : String) : List UInt8 := s.toList.map fun c => c.toNat.toUInt8

/-- A length-delimited field. -/
def protoField (tag : UInt8) (payload : List UInt8) : List UInt8 :=
  tag :: payload.length.toUInt8 :: payload

/-- A missing task, with nothing but the `ErrorInfo`. -/
def notFound : A2aError where
  type := .taskNotFound
  reason := "TASK_NOT_FOUND"
  specific := rfl
  message := "no such task"
  domain := "a2a-protocol.org"
  metadata := []
  before := []
  after := []

/-- The `ErrorInfo` of a missing task, encoded. -/
def notFoundInfo : List UInt8 :=
  protoField 0x0A (ascii "TASK_NOT_FOUND") ++ protoField 0x12 (ascii "a2a-protocol.org")

/-- The status that carries it, encoded. -/
def notFoundStatus : List UInt8 :=
  [0x08, 5] ++ protoField 0x12 (ascii "no such task") ++
    protoField 0x1A (protoField 0x0A (ascii errorInfoType) ++ protoField 0x12 notFoundInfo)

/-- A parser of these two messages. -/
def notFoundProtobuf : Protobuf where
  parseStatus b := if b = notFoundStatus then some [⟨errorInfoType, notFoundInfo⟩] else none
  parseErrorInfo b := if b = notFoundInfo then some notFound.info else none

/-- The failed call as the client sees it. -/
def notFoundCall : RpcError where
  code := "NOT_FOUND"
  details := some "no such task"
  trailers := [("grpc-status-details-bin", .bytes notFoundStatus)]

/-- The error reaches the client that way. -/
theorem notFound_fails : notFound.Fails notFoundProtobuf notFoundCall where
  code := rfl
  message := rfl
  trailers := by
    have hstatus : notFoundProtobuf.parseStatus notFoundStatus =
        some [⟨errorInfoType, notFoundInfo⟩] := by simp [notFoundProtobuf]
    have hinfo : notFoundProtobuf.parseErrorInfo notFoundInfo = some notFound.info := by
      simp [notFoundProtobuf]
    exact ⟨notFoundStatus, [⟨errorInfoType, notFoundInfo⟩], rfl, hstatus, .cons (.info hinfo) .nil⟩

theorem not_found_disagrees :
    ∃ j g, jsonrpcErrorFrom .plain 200 (notFound.jsonrpcBody (.int 1)) = some j ∧
      (responseFromRpcError notFoundProtobuf notFoundCall).error = some g ∧
      ¬ SameObserved notFound j g := by
  obtain ⟨j, r, g, hj, -, hg, hdiffer, -⟩ :=
    bindings_disagree notFound_fails 200 (.int 1)
  exact ⟨j, g, hj, hg, hdiffer⟩

/-- The first detail is an `ErrorInfo`. -/
def expectErrorInfo : ExpectError where
  details := .list [.object [("@type", .str errorInfoType)]]
  knownErrorName := knownErrorName_null

/-- The same expectation passes over JSON-RPC and fails over gRPC. -/
theorem error_info_type_missing_over_grpc :
    ((jsonrpcErrorFrom .plain 200 (notFound.jsonrpcBody (.int 1))).map fun j =>
        (evaluateError .plain expectErrorInfo j.observed).toOption.map AssertionResult.failures) =
      some (some []) ∧
    ((responseFromRpcError notFoundProtobuf notFoundCall).error.map fun g =>
        (evaluateError .plain expectErrorInfo g.observed).toOption.map fun result =>
          result.failures.map Failure.path) = some (some [.str "error.details[0].@type"]) := by
  have hgrpc : (responseFromRpcError notFoundProtobuf notFoundCall).error =
      some (notFound.overGrpc "NOT_FOUND") := responseFromRpcError_of_fails notFound_fails
  rw [hgrpc]
  exact ⟨rfl, rfl⟩

end NotFound

end Errors

end A2aItk.Acts
