import A2aItk.Python.Dict
import A2aItk.Python.Objects

/-!
# The notification receiver

`notifications_app.py`: notifications that agents post are kept by the task they name,
and handed out by task. The readers of `testlib.py` take the texts out of an event.

## Implementation notes

`request.json()` comes as its outcome. A request that raises outside the handler's own
`try` fails; the store is what it was. A path parameter of a route is one segment of the
path: a request whose segment holds a slash finds no route.
-/

namespace A2aItk.Notifications

open Python

/-- A request: its headers as they came, and what parsing its body gives. -/
structure Request where
  headers : List (String × String)
  json : Except String Value

/-- Default push notification data. -/
structure Notification where
  event : List (Scalar × Value)
  token : Option String
  headers : Dict String String

section TaskIds

/-- The task of a v1.0 message; `null` is `None`. -/
def extractTaskIdV10 (data : List (Scalar × Value)) : Value :=
  match Value.lookup (.str "task") data with
  | some (.dict task) => (Value.lookup (.str "id") task).getD .null
  | _ =>
      match Value.lookup (.str "statusUpdate") data with
      | some (.dict update) => (Value.lookup (.str "taskId") update).getD .null
      | _ => .null

/-- The task of an update of the flat form. -/
def updateTaskId (data : List (Scalar × Value)) : Value :=
  match Value.lookup (.str "taskId") data with
  | some (.scalar (.str task)) => if task = "" then .null else .str task
  | _ => .null

/-- The task of a flat v0.3 message. A kind that cannot be hashed is in no set. -/
def extractTaskIdV03 (data : List (Scalar × Value)) : Except PyError Value :=
  let kind := (Value.lookup (.str "kind") data).getD .null
  match kind.eq (.str "task"), Value.lookup (.str "id") data with
  | true, some task => pure task
  | _, _ =>
      match kind with
      | .scalar s =>
          pure (if s.eq (.str "status-update") || s.eq (.str "artifact-update") then
            updateTaskId data else .null)
      | _ => throw .typeError

def extractTaskId (data : List (Scalar × Value)) : Except PyError Value :=
  if (extractTaskIdV10 data).truthy then pure (extractTaskIdV10 data)
  else extractTaskIdV03 data

end TaskIds

section Store

/-- Notifications by task. A task is kept under the scalar that names it. -/
abbrev Store := List (Scalar × List Notification)

namespace Store

/-- `store[task_id].append(notification)`, with the task added where it is new. -/
def add (key : Scalar) (n : Notification) : Store → Store
  | [] => [(key, [n])]
  | (key', ns) :: rest =>
      if key'.eq key then (key', ns ++ [n]) :: rest else (key', ns) :: add key n rest

/-- `store.get(task_id, [])`. -/
def listByTask (store : Store) (task : String) : List Notification :=
  ((store.find? fun entry => entry.1.eq (.str task)).map Prod.snd).getD []

end Store

/-- The text can stand for a path parameter: it is not empty and has no slash. -/
def IsSegment (text : String) : Prop := text ≠ "" ∧ '/' ∉ text.toList

instance (text : String) : Decidable (IsSegment text) := inferInstanceAs (Decidable (_ ∧ _))

/-- `GET /{task_id}/notifications`; `none` is 404. -/
def listNotificationsByTask (store : Store) (task : String) : Option (List Notification) :=
  if IsSegment task then some (store.listByTask task) else none

inductive Response
  | received
  | refused (detail : String)
  | failed
  deriving DecidableEq

def tokenHeader : String := "x-a2a-notification-token"

variable (py : Interpreter)

def token (headers : List (String × String)) : Option String :=
  (headers.find? fun field => py.lower field.1 = tokenHeader).map Prod.snd

def loweredHeaders (headers : List (String × String)) : Dict String String :=
  Dict.ofList (headers.map fun field => (py.lower field.1, field.2))

/-- The text of the error that looking a kind up in a set of texts raises. -/
def unhashable (data : List (Scalar × Value)) : String :=
  match Value.lookup (.str "kind") data with
  | some (.list _) => "unhashable type: 'list'"
  | _ => "unhashable type: 'dict'"

/-- A request as it is kept, with the token and the headers it came with. -/
def notificationOf (request : Request) (event : List (Scalar × Value)) : Notification :=
  ⟨event, token py request.headers, loweredHeaders py request.headers⟩

/-- `POST /notifications`. -/
def addNotification (store : Store) (request : Request) : Store × Response :=
  match request.json with
  | .error e => (store, .refused s!"Invalid JSON: {e}")
  | .ok (.dict data) =>
      match extractTaskId data with
      | .error _ => (store, .refused (unhashable data))
      | .ok task =>
          if !task.truthy then (store, .refused "Missing \"task_id\" in push notification.")
          else match task with
            | .scalar key => (store.add key (notificationOf py request data), .received)
            | _ => (store, .failed)
  | .ok _ => (store, .refused "Notification payload must be a dictionary.")

/-- The store after a sequence of posts. -/
def received (requests : List Request) : Store :=
  requests.foldl (fun store request => (addNotification py store request).1) []

end Store

section Readers

/-- `_extract_text_from_parts`. -/
def extractTextFromParts (message : Value) : Except PyError (List Value) := do
  if ← message.hasKey "parts" then
    let parts ← (← message.item "parts").iterate
    let texts ← parts.mapM fun part => do
      if ← part.hasKey "text" then
        let text ← part.item "text"
        pure (if text.truthy then [text] else [])
      else pure []
    pure texts.flatten
  else pure []

/-- The texts of a status whose message was sent in a role. -/
def textsOfStatus (role : String) (status : Value) : Except PyError (List Value) :=
  match status.get? (.str "message") with
  | none => pure []
  | some message =>
      if message.truthy then do
        let sent ← message.getOr "role" .null
        if sent.eq (.str role) then extractTextFromParts message else pure []
      else pure []

/-- `_read_v10_notif`. -/
def readV10Notif (event : Value) : Except PyError (List Value) := do
  let camel ← event.getOr "statusUpdate" .null
  let update ← if camel.truthy then pure camel else event.getOr "status_update" .null
  match update.get? (.str "status") with
  | some status => textsOfStatus "ROLE_AGENT" status
  | none => pure []

/-- `_read_v03_notif`. -/
def readV03Notif (event : Value) : Except PyError (List Value) := do
  let status ← event.getOr "status" .null
  if status.truthy then textsOfStatus "agent" status else pure []

/-- The texts of one event: the flat form where the other has none. -/
def readNotif (event : Value) : Except PyError (List Value) := do
  let texts ← readV10Notif event
  if texts.isEmpty then readV03Notif event else pure texts

end Readers

section Runs

variable {py : Interpreter}

theorem str_eq_scalar_iff {s : Scalar} {text : String} :
    Scalar.eq (.str text) s = true ↔ s = .str text := by
  cases s <;> simp [Scalar.eq, Scalar.number?, eq_comm]

theorem scalar_eq_str (s : Scalar) (text : String) :
    s.eq (.str text) = decide (s = .str text) := by
  rw [Bool.eq_iff_iff, scalar_eq_str_iff, decide_eq_true_iff]

theorem Store.listByTask_cons (key : Scalar) (ns : List Notification) (rest : Store)
    (task : String) :
    Store.listByTask ((key, ns) :: rest) task =
      if key = .str task then ns else rest.listByTask task := by
  unfold listByTask
  rw [List.find?_cons, scalar_eq_str]
  by_cases hkey : key = .str task
  · simp [hkey]
  · simp [hkey]

/-- Appending under one task leaves the other tasks as they are. -/
theorem Store.listByTask_add (store : Store) (key : Scalar) (n : Notification) (task : String) :
    (store.add key n).listByTask task =
      if key = .str task then store.listByTask task ++ [n] else store.listByTask task := by
  induction store with
  | nil => rw [add, listByTask_cons]; rfl
  | cons entry rest ih =>
      obtain ⟨key', ns⟩ := entry
      rw [add, listByTask_cons]
      by_cases heq : key'.eq key = true
      · rw [if_pos heq, listByTask_cons]
        by_cases hkey : key = .str task
        · subst hkey
          rw [scalar_eq_str_iff.mp heq]
          simp
        · have hkey' : key' ≠ .str task := by
            rintro rfl
            exact hkey (str_eq_scalar_iff.mp heq)
          simp [hkey, hkey']
      · rw [if_neg heq, listByTask_cons, ih]
        by_cases hkey : key = .str task
        · subst hkey
          have hkey' : key' ≠ .str task := mt scalar_eq_str_iff.mpr heq
          simp [hkey']
        · simp [hkey]

/-- The task a request is kept under, and what is kept of it. -/
def kept (py : Interpreter) (request : Request) : Option (Scalar × Notification) :=
  match request.json with
  | .ok (.dict data) =>
      match extractTaskId data with
      | .ok (.scalar key) =>
          if key.truthy then some (key, notificationOf py request data) else none
      | _ => none
  | _ => none

/-- A request is received and kept under its task, or the store is what it was. -/
theorem addNotification_eq (store : Store) (request : Request) :
    (∃ key n, kept py request = some (key, n) ∧
      addNotification py store request = (store.add key n, .received)) ∨
    kept py request = none ∧ (addNotification py store request).1 = store ∧
      (addNotification py store request).2 ≠ .received := by
  unfold kept addNotification
  cases request.json with
  | error e => exact .inr ⟨rfl, rfl, by simp⟩
  | ok payload =>
      cases payload with
      | scalar s => exact .inr ⟨rfl, rfl, by simp⟩
      | list items => exact .inr ⟨rfl, rfl, by simp⟩
      | dict data =>
          dsimp only
          cases extractTaskId data with
          | error e => exact .inr ⟨rfl, rfl, by simp⟩
          | ok task =>
              cases task with
              | list items =>
                  by_cases htruthy : (Value.list items).truthy = true <;> simp [htruthy]
              | dict entries =>
                  by_cases htruthy : (Value.dict entries).truthy = true <;> simp [htruthy]
              | scalar key =>
                  by_cases htruthy : key.truthy = true <;> simp [Value.truthy, htruthy]

/-- What is listed for a task after a sequence of posts is what was kept under it, in
arrival order. -/
theorem listByTask_received (requests : List Request) (task : String) :
    (received py requests).listByTask task = requests.filterMap fun request =>
      (kept py request).bind fun entry => if entry.1 = .str task then some entry.2 else none := by
  induction requests using List.reverseRecOn with
  | nil => rfl
  | append_singleton before request ih =>
      rw [received, List.foldl_append, List.filterMap_append, ← ih, List.foldl_cons, List.foldl_nil]
      change (addNotification py (received py before) request).1.listByTask task = _
      obtain ⟨key, n, hkept, hadd⟩ | ⟨hkept, hadd, -⟩ :=
        addNotification_eq (received py before) request
      · rw [hadd, Store.listByTask_add]
        by_cases hkey : key = .str task
        · simp [hkept, hkey]
        · simp [hkept, hkey]
      · simp [hadd, hkept]

end Runs

end A2aItk.Notifications
