import A2aItk.Acts.Expectations

/-!
# Streaming assertions

The events of a stream, each split into its arm and the object inside it, and what a
step asserts about the sequence.
-/

namespace A2aItk.Acts

open Python

/-- `DISCRIMINATORS`: wire spelling to canonical arm. -/
def discriminators : List (String × String) :=
  [("task", "task"), ("message", "message"), ("status_update", "status_update"),
    ("statusUpdate", "status_update"), ("artifact_update", "artifact_update"),
    ("artifactUpdate", "artifact_update")]

def submitted : String := "TASK_STATE_SUBMITTED"

def terminalStates : List String :=
  ["TASK_STATE_COMPLETED", "TASK_STATE_FAILED", "TASK_STATE_CANCELED", "TASK_STATE_REJECTED"]

/-- One event, split into its arm and the object inside it. -/
structure StreamedEvent where
  index : ℕ
  kind : Option String
  payload : Value

namespace StreamedEvent

/-- Split one event into its arm and payload. -/
def normalize (data : Value) (index : ℕ) : StreamedEvent :=
  match data with
  | .dict [(.str key, value)] =>
      match discriminators.lookup key with
      | some kind => ⟨index, some kind, value⟩
      | none => ⟨index, none, data⟩
  | _ => ⟨index, none, data⟩

variable (event : StreamedEvent)

/-- What assertions are evaluated against: the payload's own fields, and the arm. -/
def view : Value :=
  match event.kind, event.payload with
  | some kind, .dict entries => .dict (Dict.setEntry (.str kind) event.payload entries)
  | _, payload => payload

/-- The task state the event carries, if it carries one. -/
def state : Option String := do
  let status ← event.payload.get? (.str "status")
  let state ← status.get? (.str "state")
  state.text?

end StreamedEvent

/-- `_fail` of the stream assertions. -/
def streamFailure (path operator : String) (expected : Value) (actual : Option Value)
    (message : String) : AssertionResult :=
  .fail (.str path) operator expected actual message

section Order

/-- The states the events carry, with the positions of those events. -/
def carriedStates (events : List StreamedEvent) : List (ℕ × String) :=
  events.filterMap fun event => event.state.map fun state => (event.index, state)

/-- What the move from one state to the next amounts to. -/
def checkMove (previous next : ℕ × String) : AssertionResult :=
  if next.2 = previous.2 then .pass
  else
    let path := s!"events[{next.1}].status.state"
    let broken :=
      if next.2 = submitted then
        streamFailure path "ordering" (.str s!"not {submitted}") (some (.str next.2))
          (s!"event {next.1} moves back to {submitted} from {previous.2} at event " ++
            s!"{previous.1}; it is only an initial state")
      else if previous.2 ∈ terminalStates then
        streamFailure path "ordering" (.str "no event after a terminal state")
          (some (.str next.2))
          (s!"event {next.1} is {next.2} after terminal {previous.2} at event {previous.1}")
      else .pass
    broken + .counted 1

/-- `check_ordering`: nothing moves to the initial state or out of a final one. -/
def checkOrdering (events : List StreamedEvent) : AssertionResult :=
  match carriedStates events with
  | [] => .pass
  | first :: rest =>
      .counted 1 + .total (List.zipWith checkMove (first :: rest) rest)

end Order

section Events

variable (py : Interpreter)

/-- What an event assertion says an event must look like. -/
def EventAssertion.body (assertion : EventAssertion) : Fields :=
  assertion.extras.filter fun field => !field.2.isNull

/-- `_evaluate_event_assertion`. -/
def evaluateEventAssertion (assertion : EventAssertion) (position : ℕ)
    (events : List StreamedEvent) : Except Exception AssertionResult :=
  let body := assertion.body
  let shown : Value := .object body
  let described := assertion.description.getD ""
  let label := if described.isEmpty then s!"events[{position}]" else described
  let count := events.length
  let evaluateAt (event : StreamedEvent) (path : String) : Except Exception AssertionResult :=
    evaluate py id shown (some event.view) (.str path)
  if body.isEmpty then pure .pass
  else
    match assertion.index, assertion.position with
    | some index, _ =>
        match events[index]? with
        | none => pure (streamFailure s!"events[{index}]" "index" shown none
            s!"{label}: no event at index {index}; the stream had {count}")
        | some event => evaluateAt event s!"events[{index}]"
    | none, some .anyPosition => do
        if ← anyMatches evaluateAt events then pure (.counted 1)
        else pure (streamFailure "events[*]" "any_position" shown none
          s!"{label}: no event among the {count} received matched")
    | none, _ =>
        match events[position]? with
        | none => pure (streamFailure s!"events[{position}]" "exact_position" shown none
            s!"{label}: no event at index {position}; the stream had {count}")
        | some event => evaluateAt event s!"events[{position}]"
where
  /-- Whether some event matches, up to the first that does. -/
  anyMatches (evaluateAt : StreamedEvent → String → Except Exception AssertionResult) :
      List StreamedEvent → Except Exception Bool
    | [] => pure false
    | event :: rest => do
        let result ← evaluateAt event ""
        if result.ok then pure true else anyMatches evaluateAt rest

/-- The check of `final_event`. -/
def evaluateFinalEvent (tree : Fields) (events : List StreamedEvent) :
    Except Exception AssertionResult :=
  match events.getLast? with
  | none => pure (streamFailure "final_event" "final_event" (.object tree) none
      "expected a final event, but the stream produced none")
  | some event => evaluate py id (.object tree) (some event.view) (.str "final_event")

/-- The check of `each_event`. -/
def evaluateEachEvent (tree : Fields) (events : List StreamedEvent) :
    Except Exception AssertionResult :=
  if events.isEmpty then
    pure (streamFailure "each_event" "each_event" (.object tree) none
      "expected every event to match, but the stream produced none")
  else AssertionResult.total <$> events.mapM fun event =>
    evaluate py id (.object tree) (some event.view) (.str s!"each_event[{event.index}]")

/-- `evaluate_stream`. -/
def evaluateStream (expect : StreamAssertions) (events : List StreamedEvent)
    (timedOut : Bool) : Except Exception AssertionResult := do
  let count := events.length
  let late :=
    if timedOut then
      let limit := (expect.timeoutMs.map toString).getD "None"
      streamFailure "stream" "timeout_ms" (.str s!"completion within {limit}ms")
        (some (.str s!"{count} event(s), stream still open"))
        s!"stream did not complete within {limit}ms; {count} event(s) received"
    else .pass
  let tooFew := expect.minCount.elim .pass fun low =>
    if count < low then
      streamFailure "stream" "min_count" (.int low) (some (.int count))
        s!"expected at least {low} event(s), got {count}"
    else .counted 1
  let tooMany := expect.maxCount.elim .pass fun high =>
    if high < count then
      streamFailure "stream" "max_count" (.int high) (some (.int count))
        s!"expected at most {high} event(s), got {count}"
    else .counted 1
  let ordered := expect.ordering.elim .pass fun _ => checkOrdering events
  let each ← ((expect.events.getD []).zipIdx).mapM fun entry =>
    evaluateEventAssertion py entry.1 entry.2 events
  let final ← match expect.finalEvent with
    | none => pure .pass
    | some tree => evaluateFinalEvent py tree events
  let every ← match expect.eachEvent with
    | none => pure .pass
    | some tree => evaluateEachEvent py tree events
  pure (late + tooFew + tooMany + ordered + .total each + final + every)

end Events

example : (StreamedEvent.normalize (.object [("statusUpdate", .object [])]) 0).kind =
    some "status_update" := by decide

end A2aItk.Acts
