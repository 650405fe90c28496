import A2aItk.Acts.Dispatchers

/-!
# Sessions with an HTTP dispatcher

Whatever is asked of a dispatcher, and whatever the client makes of it, each call comes to at
most one request, which the calls before it decide but not the answers, and its answer is what
the reply to this request says.
-/

namespace A2aItk.Acts

open Python

/-- The bindings over HTTP. -/
inductive HttpBinding
  | jsonrpc
  | rest
  deriving DecidableEq

/-- What a runner asks a dispatcher for. -/
inductive Call
  | dispatch (operation : Operation) (params : Fields) (headers : Headers)
  | dispatchRaw (raw : RawBlock) (headers : Headers)
  | stream (operation : Operation) (params : Fields) (headers : Headers) (deadlineMs : ℕ)
  | streamRaw (raw : RawBlock) (headers : Headers) (deadlineMs : ℕ)

/-- What it gets. -/
inductive Answer
  | response (r : WireResponse)
  | raised (e : Exception)
  | script (script : StreamScript)

section Model

variable {σ : Type}

/-- The outcome of a unary call. -/
def answerOf : EStateM.Result Exception (Session σ) WireResponse → Answer × Session σ
  | .ok r t => (.response r, t)
  | .error e t => (.raised e, t)

def scripted (result : StreamScript × Session σ) : Answer × Session σ :=
  (.script result.1, result.2)

variable (b : HttpBinding) (d : HttpDispatcher σ)

/-- A call of the dispatcher. -/
def perform (call : Call) (s : Session σ) : Answer × Session σ :=
  match call, b with
  | .dispatch operation params headers, .jsonrpc =>
      answerOf (JsonRpc.dispatch d operation params headers s)
  | .dispatch operation params headers, .rest =>
      answerOf (Rest.dispatch d operation params headers s)
  | .dispatchRaw raw headers, _ => answerOf (d.dispatchRaw raw headers s)
  | .stream operation params headers deadlineMs, .jsonrpc =>
      scripted (JsonRpc.stream d operation params headers deadlineMs s)
  | .stream operation params headers deadlineMs, .rest =>
      scripted (Rest.stream d operation params headers deadlineMs s)
  | .streamRaw raw headers deadlineMs, _ => scripted (d.streamRaw raw headers deadlineMs s)

/-- The calls one after the other, with the answer to each. -/
def converse : List Call → Session σ → List Answer × Session σ
  | [], s => ([], s)
  | call :: rest, s =>
      let first := perform b d call s
      let others := converse rest first.2
      (first.1 :: others.1, others.2)

end Model

section Spec

variable {σ : Type} (b : HttpBinding) (d : HttpDispatcher σ)

/-- Whether a call takes an id. -/
def takesId : Call → Bool
  | .dispatch operation params _ => b = .jsonrpc && !(operation.resolve params).httpOnly
  | .stream operation _ _ _ => b = .jsonrpc && operation.streaming
  | _ => false

/-- The request of a call, if the dispatcher does not refuse it. -/
def requestOf (id : ℕ) : Call → Except Exception HttpRequest
  | .dispatch operation params headers =>
      if (operation.resolve params).httpOnly then .ok (d.cardRequest headers)
      else match b with
        | .jsonrpc => .ok (JsonRpc.callRequest d id (operation.resolve params) params headers)
        | .rest => do
            let split ← Except.mapError .builtin
              (Rest.splitParams d (operation.resolve params) params)
            pure (Rest.callRequest d (operation.resolve params) split.1 split.2 headers)
  | .dispatchRaw raw headers => .ok (d.rawRequest raw headers)
  | .stream operation params headers _ =>
      if operation.streaming then
        match b with
        | .jsonrpc => .ok (d.streamRequest .post d.rpcPath headers
            (some (.json (JsonRpc.envelope id operation params))) true)
        | .rest => do
            let split ← Except.mapError .builtin (Rest.splitParams d operation params)
            pure (d.streamRequest operation.restMethod split.1 headers
              (some (.json (.object split.2.entries))) true)
      else .error (HttpDispatcher.notStreaming operation)
  | .streamRaw raw headers _ => .ok (d.streamRequest raw.method raw.path
      ((d.headers headers none none false).update (raw.headers.getD [])).entries
      (HttpDispatcher.rawContent raw) false)

/-- How a call ends without a reply. -/
def brokenBy (e : Exception) : Call → Answer
  | .dispatch .. | .dispatchRaw .. => .raised e
  | .stream .. | .streamRaw .. => .script { events := [], ending := .raised e }

def Call.isStream : Call → Bool
  | dispatch .. | dispatchRaw .. => false
  | stream .. | streamRaw .. => true

/-- The events of a hand-built request stay as they are. -/
def Call.unwraps : Call → Bool
  | streamRaw .. => false
  | _ => true

/-- Whether the payload is in an envelope. -/
def isWrapped : Call → Bool
  | .dispatch operation params _ => b = .jsonrpc && !(operation.resolve params).httpOnly
  | _ => false

/-- The payload of a body, as the call reads it. -/
def payloadOf (call : Call) (body : Value) : Value :=
  if isWrapped b call then (body.get? (.str "result")).getD .null else body

/-- What a call makes of the outcome of its request: every reply of the agent is an answer,
with its status and headers, and only a failure of the client is passed on as one. -/
inductive Reads : Call → HttpOutcome → Answer → Prop
  | replied {call reply} (hunary : call.isStream = false) :
      Reads call (.reply reply) (.response {
        status := reply.status
        headers := reply.headers
        payload := payloadOf b call (d.parseJsonBody reply.text)
        error := d.dialect.errorFrom reply.status (d.parseJsonBody reply.text) })
  | streamed {call reply} (hstream : call.isStream = true)
      (hsse : isSse d.py reply.contentType = true) :
      Reads call (.opened reply) (.script {
        events := d.streamEvents reply.status call.unwraps reply.events
        ending := HttpDispatcher.endingOf reply.ending })
  | refused {call reply text message} (hstream : call.isStream = true)
      (hsse : isSse d.py reply.contentType = false) (hbody : reply.body = .ok text) :
      Reads call (.opened reply) (.script {
        events := []
        ending := .raised (.streamNotOpened message {
          status := reply.status
          headers := reply.headers
          payload := d.parseJsonBody text
          error := d.dialect.errorFrom reply.status (d.parseJsonBody text) }) })
  | unread {call reply failure} (hstream : call.isStream = true)
      (hsse : isSse d.py reply.contentType = false) (hbody : reply.body = .error failure) :
      Reads call (.opened reply) (.script {
        events := [], ending := .raised failure.exception })
  | failed {call failure} : Reads call (.failed failure) (brokenBy failure.exception call)

/-- The body of the request says its id. -/
def Carries (id : ℕ) (request : HttpRequest) : Prop :=
  ∃ body, request.content = some (.json body) ∧ body.get? (.str "id") = some (.int id)

/-- A call that begins with this id: its answer, and its exchange if there is one. Where the call
takes the id, the body carries it. -/
inductive Accounts (id : ℕ) (call : Call) : Answer → List (HttpRequest × HttpOutcome) → Prop
  | refused {e} (h : requestOf b d id call = .error e) : Accounts id call (brokenBy e call) []
  | exchanged {request outcome answer} (h : requestOf b d id call = .ok request)
      (hid : takesId b call = true → Carries id request)
      (hreads : Reads b d call outcome answer) : Accounts id call answer [(request, outcome)]

/-- The calls of a session from this id on: their answers, their exchanges in order, and the
next id. -/
inductive Conversation : ℕ → List Call → List Answer → List (HttpRequest × HttpOutcome) → ℕ → Prop
  | nil {id} : Conversation id [] [] [] id
  | cons {id call answer exchanges calls answers others last}
      (hfirst : Accounts b d id call answer exchanges)
      (hrest : Conversation (id + (takesId b call).toNat) calls answers others last) :
      Conversation id (call :: calls) (answer :: answers) (exchanges ++ others) last

/-- The exception a call ends with. -/
def Answer.exception? : Answer → Option Exception
  | response _ => none
  | raised e => some e
  | script ⟨_, .raised e, _, _⟩ => some e
  | script _ => none

/-- A failure of the client in an exchange. -/
inductive HttpOutcome.Fails : HttpOutcome → ClientFailure → Prop
  | failed (failure) : Fails (.failed failure) failure
  | unread {reply failure} (h : reply.body = .error failure) : Fails (.opened reply) failure
  | ended {reply failure} (h : reply.ending = .failed failure) : Fails (.opened reply) failure

end Spec

section Steps

variable {σ : Type} {b : HttpBinding} {d : HttpDispatcher σ}

/-- What performing a call has to show, from this session to that answer and session. -/
structure Performed (b : HttpBinding) (d : HttpDispatcher σ) (call : Call) (s : Session σ)
    (result : Answer × Session σ) : Prop where
  accounts : ∃ exchanges, result.2.exchanges = s.exchanges ++ exchanges ∧
    Accounts b d s.nextId call result.1 exchanges
  nextId : result.2.nextId = s.nextId + (takesId b call).toNat

theorem carries_of_requestOf {id : ℕ} {call : Call} {request : HttpRequest}
    (h : requestOf b d id call = .ok request) (htakes : takesId b call = true) :
    Carries id request := by
  have henvelope (operation : Operation) (params : Fields) :
      (JsonRpc.envelope id operation params).get? (.str "id") = some (.int id) := rfl
  cases call with
  | dispatch operation params headers =>
      rw [takesId, Bool.and_eq_true, decide_eq_true_eq, Bool.not_eq_true'] at htakes
      obtain ⟨rfl, hrpc⟩ := htakes
      rw [requestOf, hrpc] at h
      cases h
      exact ⟨_, rfl, henvelope _ _⟩
  | stream operation params headers deadlineMs =>
      rw [takesId, Bool.and_eq_true, decide_eq_true_eq] at htakes
      obtain ⟨rfl, hstreams⟩ := htakes
      rw [requestOf, if_pos hstreams] at h
      cases h
      exact ⟨_, rfl, henvelope _ _⟩
  | dispatchRaw raw headers => cases htakes
  | streamRaw raw headers deadlineMs => cases htakes

theorem brokenBy_of_unary {call : Call} (h : call.isStream = false) (e : Exception) :
    brokenBy e call = .raised e := by
  cases call with
  | dispatch operation params headers => rfl
  | dispatchRaw raw headers => rfl
  | stream operation params headers deadlineMs => cases h
  | streamRaw raw headers deadlineMs => cases h

theorem brokenBy_of_stream {call : Call} (h : call.isStream = true) (e : Exception) :
    brokenBy e call = .script { events := [], ending := .raised e } := by
  cases call with
  | dispatch operation params headers => cases h
  | dispatchRaw raw headers => cases h
  | stream operation params headers deadlineMs => rfl
  | streamRaw raw headers deadlineMs => rfl

/-- A stream is opened, refused by the agent, or broken before its body is read. -/
theorem reads_scriptOf {call : Call} (hstream : call.isStream = true) (reply : OpenReply) :
    Reads b d call (.opened reply) (.script (d.scriptOf call.unwraps reply)) := by
  unfold HttpDispatcher.scriptOf
  split
  · rename_i hsse
    exact .streamed hstream hsse
  · rename_i hsse
    rw [Bool.not_eq_true] at hsse
    cases hbody : reply.body with
    | ok text =>
        rw [HttpDispatcher.refusal, hbody]
        exact .refused hstream hsse hbody
    | error failure =>
        rw [HttpDispatcher.refusal, hbody]
        exact .unread hstream hsse hbody

/-- A request that is sent from a session where its id is already taken. -/
theorem performed_send {call : Call} {s u : Session σ} {request : HttpRequest}
    (hunary : call.isStream = false) (hrequest : requestOf b d s.nextId call = .ok request)
    (hexchanges : u.exchanges = s.exchanges)
    (hnext : u.nextId = s.nextId + (takesId b call).toNat) {f : WireResponse → WireResponse}
    (hf : ∀ r, f r = { r with payload := payloadOf b call r.payload }) :
    Performed b d call s (answerOf ((do
      let reply ← d.send request
      pure (f (d.replied reply.status reply.headers reply.text)) :
        EStateM Exception (Session σ) WireResponse) u)) := by
  cases hclient : d.client.request request u.outside with
  | mk reply outside =>
      cases reply with
      | ok reply =>
          have hsend : d.send request u = .ok reply (u.after request (.reply reply) outside) := by
            rw [HttpDispatcher.send, hclient]
          rw [Effects.bind_apply_of_ok hsend, Effects.pure_apply, hf]
          refine ⟨⟨[(request, .reply reply)], ?_, .exchanged hrequest
            (carries_of_requestOf hrequest) (.replied hunary)⟩, hnext⟩
          rw [← hexchanges]
          rfl
      | error failure =>
          have hsend : d.send request u =
              .error failure.exception (u.after request (.failed failure) outside) := by
            rw [HttpDispatcher.send, hclient]
          have hreads : Reads b d call (.failed failure) (.raised failure.exception) := by
            rw [← brokenBy_of_unary hunary]
            exact .failed
          rw [Effects.bind_apply_of_error hsend]
          refine ⟨⟨[(request, .failed failure)], ?_, .exchanged hrequest
            (carries_of_requestOf hrequest) hreads⟩, hnext⟩
          rw [← hexchanges]
          rfl

theorem performed_stream {call : Call} {s u : Session σ} {request : HttpRequest} {deadlineMs : ℕ}
    (hstream : call.isStream = true) (hrequest : requestOf b d s.nextId call = .ok request)
    (hexchanges : u.exchanges = s.exchanges)
    (hnext : u.nextId = s.nextId + (takesId b call).toNat) :
    Performed b d call s (scripted (d.streamSse request call.unwraps deadlineMs u)) := by
  unfold HttpDispatcher.streamSse
  cases hclient : d.client.stream request deadlineMs u.outside with
  | mk reply outside =>
      cases reply with
      | ok reply =>
          refine ⟨⟨[(request, .opened reply)], ?_, .exchanged hrequest
            (carries_of_requestOf hrequest) ?_⟩, hnext⟩
          · rw [← hexchanges]
            rfl
          · exact reads_scriptOf hstream reply
      | error failure =>
          have hreads : Reads b d call (.failed failure)
              (.script { events := [], ending := .raised failure.exception }) := by
            rw [← brokenBy_of_stream hstream]
            exact .failed
          refine ⟨⟨[(request, .failed failure)], ?_, .exchanged hrequest
            (carries_of_requestOf hrequest) hreads⟩, hnext⟩
          rw [← hexchanges]
          rfl

/-- A call that is refused before anything is sent. -/
theorem performed_refused {call : Call} {s u : Session σ} {e : Exception}
    (hrequest : requestOf b d s.nextId call = .error e) (hexchanges : u.exchanges = s.exchanges)
    (hnext : u.nextId = s.nextId + (takesId b call).toNat) :
    Performed b d call s (brokenBy e call, u) :=
  ⟨⟨[], by rw [hexchanges, List.append_nil], .refused hrequest⟩, hnext⟩

variable (b d)

theorem performed_getAgentCard {operation : Operation} {params : Fields} {headers : Headers}
    (hhttp : (operation.resolve params).httpOnly = true) (s : Session σ) :
    Performed b d (.dispatch operation params headers) s (answerOf (d.getAgentCard headers s)) := by
  have hrequest : requestOf b d s.nextId (.dispatch operation params headers) =
      .ok (d.cardRequest headers) := by
    simp only [requestOf, hhttp, if_true]
  have htakes : takesId b (.dispatch operation params headers) = false := by
    simp [takesId, hhttp]
  apply performed_send (f := id) rfl hrequest rfl
  · rw [htakes]
    rfl
  · intro r
    have hwrapped : isWrapped b (.dispatch operation params headers) = false := by
      simp [isWrapped, hhttp]
    simp [payloadOf, hwrapped]

theorem performed_dispatch (operation : Operation) (params : Fields) (headers : Headers)
    (s : Session σ) :
    Performed b d (.dispatch operation params headers) s
      (perform b d (.dispatch operation params headers) s) := by
  cases hhttp : (operation.resolve params).httpOnly with
  | true =>
      cases b with
      | jsonrpc =>
          rw [perform, JsonRpc.dispatch, if_pos hhttp]
          exact performed_getAgentCard .jsonrpc d hhttp s
      | rest =>
          rw [perform, Rest.dispatch, if_pos hhttp]
          exact performed_getAgentCard .rest d hhttp s
  | false =>
      have hnot : ¬ (operation.resolve params).httpOnly = true := by simp [hhttp]
      cases b with
      | jsonrpc =>
          have hrequest : requestOf .jsonrpc d s.nextId (.dispatch operation params headers) =
              .ok (JsonRpc.callRequest d s.nextId (operation.resolve params) params headers) := by
            simp only [requestOf, if_neg hnot]
          have hid : (JsonRpc.takeId : EStateM Exception (Session σ) ℕ) s =
              .ok s.nextId { s with nextId := s.nextId + 1 } := rfl
          rw [perform, JsonRpc.dispatch, if_neg hnot, Effects.bind_apply_of_ok hid]
          apply performed_send (u := { s with nextId := s.nextId + 1 }) (f := fun r =>
            { r with payload := (r.payload.get? (.str "result")).getD .null }) rfl hrequest rfl
          · simp [takesId, hhttp]
          · intro r
            simp [payloadOf, isWrapped, hhttp]
      | rest =>
          have htakes : takesId .rest (.dispatch operation params headers) = false := by
            simp [takesId]
          have hnext : s.nextId =
              s.nextId + (takesId .rest (.dispatch operation params headers)).toNat := by
            rw [htakes]
            rfl
          rw [perform, Rest.dispatch, if_neg hnot]
          cases hsplit : Rest.splitParams d (operation.resolve params) params with
          | error e =>
              have hrequest : requestOf .rest d s.nextId (.dispatch operation params headers) =
                  .error (.builtin e) := by
                simp only [requestOf, if_neg hnot, hsplit]
                rfl
              exact performed_refused hrequest rfl hnext
          | ok split =>
              have hrequest : requestOf .rest d s.nextId (.dispatch operation params headers) =
                  .ok (Rest.callRequest d (operation.resolve params) split.1 split.2 headers) := by
                simp only [requestOf, if_neg hnot, hsplit]
                rfl
              apply performed_send (f := id) rfl hrequest rfl hnext
              intro r
              simp [payloadOf, isWrapped]

theorem performed_stream_call (operation : Operation) (params : Fields) (headers : Headers)
    (deadlineMs : ℕ) (s : Session σ) :
    Performed b d (.stream operation params headers deadlineMs) s
      (perform b d (.stream operation params headers deadlineMs) s) := by
  cases hstreaming : operation.streaming with
  | false =>
      have hnot : ¬ operation.streaming = true := by simp [hstreaming]
      have hrequest : requestOf b d s.nextId (.stream operation params headers deadlineMs) =
          .error (HttpDispatcher.notStreaming operation) := by
        simp only [requestOf, if_neg hnot]
      have hnext : s.nextId =
          s.nextId + (takesId b (.stream operation params headers deadlineMs)).toNat := by
        simp [takesId, hstreaming]
      cases b with
      | jsonrpc =>
          rw [perform, JsonRpc.stream, if_neg hnot]
          exact performed_refused hrequest rfl hnext
      | rest =>
          rw [perform, Rest.stream, if_neg hnot]
          exact performed_refused hrequest rfl hnext
  | true =>
      cases b with
      | jsonrpc =>
          have hrequest : requestOf .jsonrpc d s.nextId
              (.stream operation params headers deadlineMs) =
              .ok (d.streamRequest .post d.rpcPath headers
                (some (.json (JsonRpc.envelope s.nextId operation params))) true) := by
            simp only [requestOf, if_pos hstreaming]
          rw [perform, JsonRpc.stream, if_pos hstreaming]
          apply performed_stream (u := { s with nextId := s.nextId + 1 }) rfl hrequest rfl
          simp [takesId, hstreaming]
      | rest =>
          have hnext : s.nextId =
              s.nextId + (takesId .rest (.stream operation params headers deadlineMs)).toNat := by
            simp [takesId]
          rw [perform, Rest.stream, if_pos hstreaming]
          cases hsplit : Rest.splitParams d operation params with
          | error e =>
              have hrequest : requestOf .rest d s.nextId
                  (.stream operation params headers deadlineMs) = .error (.builtin e) := by
                simp only [requestOf, if_pos hstreaming, hsplit]
                rfl
              exact performed_refused hrequest rfl hnext
          | ok split =>
              have hrequest : requestOf .rest d s.nextId
                  (.stream operation params headers deadlineMs) =
                  .ok (d.streamRequest operation.restMethod split.1 headers
                    (some (.json (.object split.2.entries))) true) := by
                simp only [requestOf, if_pos hstreaming, hsplit]
                rfl
              exact performed_stream (u := s) rfl hrequest rfl hnext

/-- One call, whatever the client makes of it. -/
theorem performed_perform (call : Call) (s : Session σ) :
    Performed b d call s (perform b d call s) := by
  cases call with
  | dispatch operation params headers => exact performed_dispatch b d operation params headers s
  | dispatchRaw raw headers =>
      have hresult : perform b d (.dispatchRaw raw headers) s =
          answerOf (d.dispatchRaw raw headers s) := by cases b <;> rfl
      rw [hresult]
      apply performed_send (f := id) rfl rfl rfl rfl
      intro r
      rfl
  | stream operation params headers deadlineMs =>
      exact performed_stream_call b d operation params headers deadlineMs s
  | streamRaw raw headers deadlineMs =>
      have hresult : perform b d (.streamRaw raw headers deadlineMs) s =
          scripted (d.streamRaw raw headers deadlineMs s) := by cases b <;> rfl
      rw [hresult]
      exact performed_stream (u := s) rfl rfl rfl rfl

end Steps

section Runs

variable {σ : Type} {b : HttpBinding} {d : HttpDispatcher σ}

/-- What an exchange is read as raises nothing that the agent's answer or the client does not
account for. -/
theorem Reads.exception {call : Call} {outcome : HttpOutcome} {answer : Answer} {e : Exception}
    (h : Reads b d call outcome answer) (he : answer.exception? = some e) :
    e.isMalformedResponse = true ∨ ∃ failure, outcome.Fails failure ∧ e = failure.exception := by
  cases h with
  | replied hunary => cases he
  | @streamed reply hstream hsse =>
      cases hending : reply.ending with
      | closed =>
          rw [hending] at he
          cases he
      | stalled =>
          rw [hending] at he
          cases he
      | sseError message =>
          rw [hending] at he
          cases he
          exact .inl rfl
      | failed failure =>
          rw [hending] at he
          cases he
          exact .inr ⟨failure, .ended hending, rfl⟩
  | refused hstream hsse hbody =>
      cases he
      exact .inl rfl
  | unread hstream hsse hbody =>
      cases he
      exact .inr ⟨_, .unread hbody, rfl⟩
  | failed =>
      cases call with
      | dispatch operation params headers =>
          cases he
          exact .inr ⟨_, .failed _, rfl⟩
      | dispatchRaw raw headers =>
          cases he
          exact .inr ⟨_, .failed _, rfl⟩
      | stream operation params headers deadlineMs =>
          cases he
          exact .inr ⟨_, .failed _, rfl⟩
      | streamRaw raw headers deadlineMs =>
          cases he
          exact .inr ⟨_, .failed _, rfl⟩

/-- A session with no more exchanges than calls. -/
theorem Conversation.length_le {id last : ℕ} {calls : List Call} {answers : List Answer}
    {exchanges : List (HttpRequest × HttpOutcome)}
    (h : Conversation b d id calls answers exchanges last) : exchanges.length ≤ calls.length := by
  induction h with
  | nil => exact Nat.le_refl 0
  | cons hfirst _ ih =>
      rw [List.length_append, List.length_cons, Nat.add_comm]
      apply Nat.add_le_add ih
      cases hfirst with
      | refused _ => exact Nat.zero_le 1
      | exchanged _ _ _ => exact Nat.le_refl 1

/-- Where the exceptions of a session come from. -/
theorem Conversation.exception {id last : ℕ} {calls : List Call} {answers : List Answer}
    {exchanges : List (HttpRequest × HttpOutcome)}
    (h : Conversation b d id calls answers exchanges last) {answer : Answer}
    (hanswer : answer ∈ answers) {e : Exception} (he : answer.exception? = some e) :
    e.isMalformedResponse = true ∨
      (∃ exchange ∈ exchanges, ∃ failure, exchange.2.Fails failure ∧ e = failure.exception) ∨
      ∃ call ∈ calls, ∃ id, requestOf b d id call = .error e := by
  induction h with
  | nil => cases hanswer
  | @cons id call first exchanges calls answers others last hfirst hrest ih =>
      rcases List.mem_cons.mp hanswer with rfl | hrest
      · cases hfirst with
        | @refused e' hrequest =>
            have heq : e' = e := by
              cases call <;> exact Option.some.inj he
            subst heq
            exact .inr (.inr ⟨call, List.mem_cons_self, id, hrequest⟩)
        | @exchanged request outcome _ hrequest _ hreads =>
            rcases hreads.exception he with hmalformed | ⟨failure, hfails, rfl⟩
            · exact .inl hmalformed
            · exact .inr (.inl ⟨_, List.mem_append_left _ (List.mem_singleton.mpr rfl), failure,
                hfails, rfl⟩)
      · rcases ih hrest with hmalformed | ⟨exchange, hmem, hfails⟩ | ⟨other, hmem, hrequest⟩
        · exact .inl hmalformed
        · exact .inr (.inl ⟨exchange, List.mem_append_right _ hmem, hfails⟩)
        · exact .inr (.inr ⟨other, List.mem_cons_of_mem _ hmem, hrequest⟩)

variable (b d)

theorem conversation_converse (calls : List Call) (s : Session σ) :
    ∃ exchanges, (converse b d calls s).2.exchanges = s.exchanges ++ exchanges ∧
      Conversation b d s.nextId calls (converse b d calls s).1 exchanges
        (converse b d calls s).2.nextId := by
  induction calls generalizing s with
  | nil => exact ⟨[], (List.append_nil _).symm, .nil⟩
  | cons call rest ih =>
      obtain ⟨⟨exchanges, hexchanges, hfirst⟩, hnext⟩ := performed_perform b d call s
      obtain ⟨others, hothers, hrest⟩ := ih (perform b d call s).2
      refine ⟨exchanges ++ others, ?_, .cons hfirst (hnext ▸ hrest)⟩
      rw [← List.append_assoc, ← hexchanges]
      exact hothers

/-- A session with a dispatcher over HTTP, whatever the client and the agent do: each call is
sent as one request or refused, its request is decided by the calls alone, its answer is the
reading of the reply to that request, and the ids in the bodies count up. An exception is an
answer of the agent that is malformed, or a failure of the client, or a call that was refused:
nothing the agent says is taken for a failure of the harness. -/
theorem converse_accounts (calls : List Call) (s : Session σ) :
    ∃ exchanges, (converse b d calls s).2.exchanges = s.exchanges ++ exchanges ∧
      Conversation b d s.nextId calls (converse b d calls s).1 exchanges
        (converse b d calls s).2.nextId ∧
      exchanges.length ≤ calls.length ∧
      ∀ answer ∈ (converse b d calls s).1, ∀ e, answer.exception? = some e →
        e.isMalformedResponse = true ∨
        (∃ exchange ∈ exchanges, ∃ failure, exchange.2.Fails failure ∧ e = failure.exception) ∨
        ∃ call ∈ calls, ∃ id, requestOf b d id call = .error e := by
  obtain ⟨exchanges, hexchanges, hconversation⟩ := conversation_converse b d calls s
  exact ⟨exchanges, hexchanges, hconversation, hconversation.length_le,
    fun answer hanswer e he => hconversation.exception hanswer he⟩

end Runs

end A2aItk.Acts
