import A2aItk.Notifications.Receiver

/-!
# What the receiver keeps

A payload names its task in one of the arms of a stream response, or flatly. The
receiver recognises two of the arms, and two of the flat kinds; what it recognises it
keeps in order, and anything else it refuses.
-/

namespace A2aItk.Notifications

open Python

section Shapes

def updateArms : List String :=
  ["statusUpdate", "status_update", "artifactUpdate", "artifact_update", "message"]

def flatKinds : List String := ["status-update", "artifact-update", "message"]

/-- The payload names the task in an arm of a stream response, in either spelling, or in
the flat form. -/
inductive Identifies (data : List (Scalar × Value)) (task : String) : Prop
  | task {inner : List (Scalar × Value)}
      (harm : Value.lookup (.str "task") data = some (.dict inner))
      (hid : Value.lookup (.str "id") inner = some (.str task))
  | update {arm key : String} {inner : List (Scalar × Value)} (hmem : arm ∈ updateArms)
      (hkey : key = "taskId" ∨ key = "task_id")
      (harm : Value.lookup (.str arm) data = some (.dict inner))
      (hid : Value.lookup (.str key) inner = some (.str task))
  | flatTask (hkind : Value.lookup (.str "kind") data = some (.str "task"))
      (hid : Value.lookup (.str "id") data = some (.str task))
  | flatUpdate {kind : String} (hmem : kind ∈ flatKinds)
      (hkind : Value.lookup (.str "kind") data = some (.str kind))
      (hid : Value.lookup (.str "taskId") data = some (.str task))

/-- A field is missing or false. -/
def Blank (field : Option Value) : Prop := ∀ v, field = some v → v.truthy = false

/-- The arm is no mapping. -/
def NoArm (arm : String) (data : List (Scalar × Value)) : Prop :=
  ∀ inner, Value.lookup (.str arm) data ≠ some (.dict inner)

/-- Neither recognised arm names a task. -/
inductive Flat (data : List (Scalar × Value)) : Prop
  | task {inner : List (Scalar × Value)}
      (harm : Value.lookup (.str "task") data = some (.dict inner))
      (hid : Blank (Value.lookup (.str "id") inner))
  | update {inner : List (Scalar × Value)} (htask : NoArm "task" data)
      (harm : Value.lookup (.str "statusUpdate") data = some (.dict inner))
      (hid : Blank (Value.lookup (.str "taskId") inner))
  | bare (htask : NoArm "task" data) (hupdate : NoArm "statusUpdate" data)

/-- The payload names the task by `task.id`; without a `task` by `statusUpdate.taskId`;
and where neither is given flatly, as a task or as an update. -/
inductive Recognised (data : List (Scalar × Value)) (task : String) : Prop
  | task {inner : List (Scalar × Value)}
      (harm : Value.lookup (.str "task") data = some (.dict inner))
      (hid : Value.lookup (.str "id") inner = some (.str task))
  | update {inner : List (Scalar × Value)} (htask : NoArm "task" data)
      (harm : Value.lookup (.str "statusUpdate") data = some (.dict inner))
      (hid : Value.lookup (.str "taskId") inner = some (.str task))
  | flatTask (hflat : Flat data) (hkind : Value.lookup (.str "kind") data = some (.str "task"))
      (hid : Value.lookup (.str "id") data = some (.str task))
  | flatUpdate {kind : String} (hflat : Flat data)
      (hmem : kind = "status-update" ∨ kind = "artifact-update")
      (hkind : Value.lookup (.str "kind") data = some (.str kind))
      (hid : Value.lookup (.str "taskId") data = some (.str task))

variable {data : List (Scalar × Value)} {task : String}

theorem truthy_str (htask : task ≠ "") : (Value.str task).truthy = true := by
  simpa [Value.truthy, Scalar.truthy] using htask

/-- The three ways through the first extraction. -/
theorem extractTaskIdV10_cases (data : List (Scalar × Value)) :
    (∃ inner, Value.lookup (.str "task") data = some (.dict inner) ∧
      extractTaskIdV10 data = (Value.lookup (.str "id") inner).getD .null) ∨
    NoArm "task" data ∧
      ((∃ inner, Value.lookup (.str "statusUpdate") data = some (.dict inner) ∧
        extractTaskIdV10 data = (Value.lookup (.str "taskId") inner).getD .null) ∨
      NoArm "statusUpdate" data ∧ extractTaskIdV10 data = .null) := by
  unfold extractTaskIdV10
  split
  · rename_i inner htask
    exact .inl ⟨inner, htask, rfl⟩
  · rename_i htask
    refine .inr ⟨fun inner h => htask inner h, ?_⟩
    split
    · rename_i inner hupdate
      exact .inl ⟨inner, hupdate, rfl⟩
    · rename_i hupdate
      exact .inr ⟨fun inner h => hupdate inner h, rfl⟩

theorem blank_iff {field : Option Value} : Blank field ↔ (field.getD .null).truthy = false := by
  cases field with
  | none => simp [Blank, Value.truthy, Scalar.truthy]
  | some v => simp [Blank]

theorem flat_iff : Flat data ↔ (extractTaskIdV10 data).truthy = false := by
  obtain ⟨inner, harm, heq⟩ | ⟨htask, ⟨inner, harm, heq⟩ | ⟨hupdate, heq⟩⟩ :=
    extractTaskIdV10_cases data
  · rw [heq, ← blank_iff]
    constructor
    · intro h
      cases h with
      | task harm' hid =>
          obtain rfl := Value.dict.inj (Option.some.inj (harm.symm.trans harm'))
          exact hid
      | update htask _ _ => exact absurd harm (htask inner)
      | bare htask _ => exact absurd harm (htask inner)
    · exact fun hid => .task harm hid
  · rw [heq, ← blank_iff]
    constructor
    · intro h
      cases h with
      | task harm' _ => exact absurd harm' (htask _)
      | update _ harm' hid =>
          obtain rfl := Value.dict.inj (Option.some.inj (harm.symm.trans harm'))
          exact hid
      | bare _ hupdate => exact absurd harm (hupdate inner)
    · exact fun hid => .update htask harm hid
  · rw [heq]
    exact iff_of_true (.bare htask hupdate) rfl

theorem getD_eq_str_iff {field : Option Value} :
    field.getD .null = .str task ↔ field = some (.str task) := by
  cases field <;> simp

/-- The first extraction finds a task in one of two arms. -/
theorem extractTaskIdV10_eq_iff :
    extractTaskIdV10 data = .str task ↔
      (∃ inner, Value.lookup (.str "task") data = some (.dict inner) ∧
        Value.lookup (.str "id") inner = some (.str task)) ∨
      NoArm "task" data ∧ ∃ inner, Value.lookup (.str "statusUpdate") data = some (.dict inner) ∧
        Value.lookup (.str "taskId") inner = some (.str task) := by
  obtain ⟨inner, harm, heq⟩ | ⟨htask, ⟨inner, harm, heq⟩ | ⟨hupdate, heq⟩⟩ :=
    extractTaskIdV10_cases data
  · rw [heq, getD_eq_str_iff]
    constructor
    · exact fun hid => .inl ⟨inner, harm, hid⟩
    · rintro (⟨inner', harm', hid⟩ | ⟨hno, -⟩)
      · obtain rfl := Value.dict.inj (Option.some.inj (harm.symm.trans harm'))
        exact hid
      · exact absurd harm (hno inner)
  · rw [heq, getD_eq_str_iff]
    constructor
    · exact fun hid => .inr ⟨htask, inner, harm, hid⟩
    · rintro (⟨inner', harm', -⟩ | ⟨-, inner', harm', hid⟩)
      · exact absurd harm' (htask inner')
      · obtain rfl := Value.dict.inj (Option.some.inj (harm.symm.trans harm'))
        exact hid
  · rw [heq]
    constructor
    · intro h
      cases h
    · rintro (⟨inner', harm', -⟩ | ⟨-, inner', harm', -⟩)
      · exact absurd harm' (htask inner')
      · exact absurd harm' (hupdate inner')

theorem updateTaskId_eq_iff (htask : task ≠ "") :
    updateTaskId data = .str task ↔ Value.lookup (.str "taskId") data = some (.str task) := by
  unfold updateTaskId
  split
  · rename_i found hfound
    rw [hfound]
    by_cases hempty : found = ""
    · subst hempty
      simp [Ne.symm htask]
    · simp [hempty]
  · rename_i hnone
    constructor
    · intro h
      cases h
    · exact fun h => absurd h (hnone task)

theorem value_eq_str_iff {v : Value} {text : String} :
    v.eq (.str text) = true ↔ v = .str text := by
  cases v with
  | scalar s => simp [Value.eq, scalar_eq_str_iff]
  | list items => simp [Value.eq]
  | dict entries => simp [Value.eq]

theorem extractTaskIdV03_eq_iff (htask : task ≠ "") :
    extractTaskIdV03 data = .ok (.str task) ↔
      Value.lookup (.str "kind") data = some (.str "task") ∧
        Value.lookup (.str "id") data = some (.str task) ∨
      ∃ kind, (kind = "status-update" ∨ kind = "artifact-update") ∧
        Value.lookup (.str "kind") data = some (.str kind) ∧
        Value.lookup (.str "taskId") data = some (.str task) := by
  unfold extractTaskIdV03
  dsimp only
  generalize hkind : (Value.lookup (.str "kind") data).getD .null = kind
  have hlookup (text : String) :
      Value.lookup (.str "kind") data = some (.str text) ↔ kind = .str text := by
    rw [← hkind, getD_eq_str_iff]
  simp only [hlookup]
  split
  · rename_i found heq hid
    obtain rfl := value_eq_str_iff.mp heq
    rw [hid]
    simp
  · rename_i hno
    have hnot : ¬ (kind = .str "task" ∧ Value.lookup (.str "id") data = some (.str task)) := by
      rintro ⟨rfl, hid⟩
      exact hno _ (value_eq_str_iff.mpr rfl) hid
    cases kind with
    | list items => simp
    | dict entries => simp
    | scalar s =>
        simp only [scalar_eq_str, pure_eq_ok, Except.ok.injEq, Value.scalar.injEq] at hnot ⊢
        rw [or_iff_right hnot]
        constructor
        · intro h
          split at h
          · rename_i hs
            simp only [Bool.or_eq_true, decide_eq_true_eq] at hs
            have htaskId := (updateTaskId_eq_iff htask).mp h
            obtain rfl | rfl := hs
            · exact ⟨_, .inl rfl, rfl, htaskId⟩
            · exact ⟨_, .inr rfl, rfl, htaskId⟩
          · cases h
        · rintro ⟨text, hmem, rfl, htaskId⟩
          have hs : (decide (Scalar.str text = .str "status-update") ||
              decide (Scalar.str text = .str "artifact-update")) = true := by
            simpa using hmem
          rw [if_pos hs]
          exact (updateTaskId_eq_iff htask).mpr htaskId

/-- The receiver files a payload under a task exactly where it recognises it. -/
theorem extractTaskId_eq_iff (htask : task ≠ "") :
    extractTaskId data = .ok (.str task) ↔ Recognised data task := by
  unfold extractTaskId
  by_cases htruthy : (extractTaskIdV10 data).truthy = true
  · have hflat : ¬ Flat data := by simp [flat_iff, htruthy]
    rw [if_pos htruthy, pure_eq_ok, Except.ok.injEq, extractTaskIdV10_eq_iff]
    constructor
    · rintro (⟨inner, harm, hid⟩ | ⟨hno, inner, harm, hid⟩)
      · exact .task harm hid
      · exact .update hno harm hid
    · intro h
      cases h with
      | task harm hid => exact .inl ⟨_, harm, hid⟩
      | update hno harm hid => exact .inr ⟨hno, _, harm, hid⟩
      | flatTask hflat' _ _ => exact absurd hflat' hflat
      | flatUpdate hflat' _ _ _ => exact absurd hflat' hflat
  · have hflat : Flat data := by simpa [flat_iff] using htruthy
    have hnone : extractTaskIdV10 data ≠ .str task := by
      intro h
      rw [h, truthy_str htask] at htruthy
      exact htruthy rfl
    rw [if_neg htruthy, extractTaskIdV03_eq_iff htask]
    constructor
    · rintro (⟨hkind, hid⟩ | ⟨kind, hmem, hkind, hid⟩)
      · exact .flatTask hflat hkind hid
      · exact .flatUpdate hflat hmem hkind hid
    · intro h
      cases h with
      | task harm hid =>
          exact absurd (extractTaskIdV10_eq_iff.mpr (.inl ⟨_, harm, hid⟩)) hnone
      | update hno harm hid =>
          exact absurd (extractTaskIdV10_eq_iff.mpr (.inr ⟨hno, _, harm, hid⟩)) hnone
      | flatTask _ hkind hid => exact .inl ⟨hkind, hid⟩
      | flatUpdate _ hmem hkind hid => exact .inr ⟨_, hmem, hkind, hid⟩

end Shapes

section Posts

/-- A request that names a task, with its payload. -/
structure Post where
  request : Request
  data : List (Scalar × Value)
  task : String
  parsed : request.json = .ok (.dict data)
  nonempty : task ≠ ""
  identifies : Identifies data task

variable (py : Interpreter)

/-- What is listed of a request: its event, with its token and each of its headers. -/
structure Carries (post : Post) (n : Notification) : Prop where
  event : n.event = post.data
  token : ∀ v, n.token = some v ↔
    ∃ name, (name, v) ∈ post.request.headers ∧ py.lower name = tokenHeader
  headers : ∀ key v, n.headers.get? key = some v ↔
    ∃ name, (name, v) ∈ post.request.headers ∧ py.lower name = key

/-- Each post is accepted, its task can be asked for, and what is answered for a task is
its posts, in order. -/
structure Delivered (posts : List Post) : Prop where
  accepted : ∀ before post after, posts = before ++ post :: after →
    (addNotification py (received py (before.map Post.request)) post.request).2 = .received
  answered : ∀ post ∈ posts, ∃ listed,
    listNotificationsByTask (received py (posts.map Post.request)) post.task = some listed
  listed : ∀ task listed,
    listNotificationsByTask (received py (posts.map Post.request)) task = some listed →
    List.Forall₂ (Carries py) (posts.filter fun post => post.task = task) listed

/-- No header is given twice with different values. -/
def SingleHeaders (request : Request) : Prop :=
  ∀ name v name' v', (name, v) ∈ request.headers → (name', v') ∈ request.headers →
    py.lower name = py.lower name' → v = v'

variable {py} {post : Post} {posts : List Post}

theorem mem_of_get?_loweredHeaders {headers : List (String × String)} {key v : String}
    (h : (loweredHeaders py headers).get? key = some v) :
    ∃ name, (name, v) ∈ headers ∧ py.lower name = key := by
  obtain ⟨⟨name, v'⟩, hfield, heq⟩ := List.mem_map.mp (Dict.mem_of_get?_ofList h)
  obtain ⟨hname, rfl⟩ := Prod.mk.inj heq
  exact ⟨name, hfield, hname⟩

/-- Headers that are given once are all kept. -/
theorem get?_loweredHeaders (h : SingleHeaders py post.request) (key v : String) :
    (loweredHeaders py post.request.headers).get? key = some v ↔
      ∃ name, (name, v) ∈ post.request.headers ∧ py.lower name = key := by
  constructor
  · exact mem_of_get?_loweredHeaders
  · rintro ⟨name, hfield, rfl⟩
    have hsome : ((loweredHeaders py post.request.headers).get? (py.lower name)).isSome = true := by
      apply Dict.isSome_get?_update.mpr
      refine .inr (List.mem_map.mpr ⟨(py.lower name, v), ?_, rfl⟩)
      exact List.mem_map.mpr ⟨(name, v), hfield, rfl⟩
    obtain ⟨v', hv'⟩ := Option.isSome_iff_exists.mp hsome
    obtain ⟨name', hfield', hname⟩ := mem_of_get?_loweredHeaders hv'
    rw [hv', h name' v' name v hfield' hfield hname]

theorem token_eq_some_iff (h : SingleHeaders py post.request) (v : String) :
    token py post.request.headers = some v ↔
      ∃ name, (name, v) ∈ post.request.headers ∧ py.lower name = tokenHeader := by
  rw [token, Option.map_eq_some_iff]
  constructor
  · rintro ⟨⟨name, v'⟩, hfound, rfl⟩
    exact ⟨name, List.mem_of_find?_eq_some hfound, by simpa using List.find?_some hfound⟩
  · rintro ⟨name, hfield, hname⟩
    obtain ⟨field, hfound⟩ : ∃ field, post.request.headers.find?
        (fun field => py.lower field.1 = tokenHeader) = some field := by
      apply Option.isSome_iff_exists.mp
      rw [List.find?_isSome]
      exact ⟨(name, v), hfield, by simpa using hname⟩
    have hfirst : py.lower field.1 = tokenHeader := by simpa using List.find?_some hfound
    refine ⟨field, hfound, ?_⟩
    exact h field.1 field.2 name v (List.mem_of_find?_eq_some hfound) hfield
      (hfirst.trans hname.symm)

/-- A carried request has single headers. -/
theorem Carries.singleHeaders {n : Notification} (h : Carries py post n) :
    SingleHeaders py post.request := by
  intro name v name' v' hfield hfield' hname
  have hv := (h.headers (py.lower name) v).mpr ⟨name, hfield, rfl⟩
  have hv' := (h.headers (py.lower name) v').mpr ⟨name', hfield', hname.symm⟩
  exact Option.some.inj (hv.symm.trans hv')

/-- A request whose headers are single carries over to its notification. -/
theorem carries_of_singleHeaders (h : SingleHeaders py post.request) :
    Carries py post (notificationOf py post.request post.data) :=
  ⟨rfl, token_eq_some_iff h, get?_loweredHeaders h⟩

theorem kept_iff {key : Scalar} {n : Notification} :
    kept py post.request = some (key, n) ↔ extractTaskId post.data = .ok (.scalar key) ∧
      key.truthy = true ∧ n = notificationOf py post.request post.data := by
  unfold kept
  rw [post.parsed]
  dsimp only
  split
  · rename_i found hfound
    rw [hfound]
    by_cases htruthy : found.truthy = true
    · simp only [htruthy, if_true, Option.some.injEq, Prod.mk.injEq, Except.ok.injEq,
        Value.scalar.injEq]
      constructor
      · rintro ⟨rfl, rfl⟩
        exact ⟨rfl, htruthy, rfl⟩
      · rintro ⟨rfl, -, rfl⟩
        exact ⟨rfl, rfl⟩
    · simp only [htruthy, if_false, reduceCtorEq, Except.ok.injEq, Value.scalar.injEq, false_iff,
        Bool.false_eq_true]
      rintro ⟨rfl, h, -⟩
      exact htruthy h
  · rename_i hno
    simp only [reduceCtorEq, false_iff]
    rintro ⟨h, -, -⟩
    exact hno key h

theorem kept_of_recognised (h : Recognised post.data post.task) :
    kept py post.request =
      some (.str post.task, notificationOf py post.request post.data) := by
  apply kept_iff.mpr
  exact ⟨(extractTaskId_eq_iff post.nonempty).mpr h, truthy_str post.nonempty, rfl⟩

/-- What is answered for a task is what was kept under it. -/
theorem listNotificationsByTask_eq_some_iff {store : Store} {task : String}
    {listed : List Notification} :
    listNotificationsByTask store task = some listed ↔
      IsSegment task ∧ store.listByTask task = listed := by
  simp [listNotificationsByTask]

/-- A post whose task is listed with it is recognised. -/
theorem recognised_of_listed (hpost : post ∈ posts)
    (h : List.Forall₂ (Carries py) (posts.filter fun p => p.task = post.task)
      ((received py (posts.map Post.request)).listByTask post.task)) :
    Recognised post.data post.task ∧ SingleHeaders py post.request := by
  have hmem : post ∈ posts.filter fun p => p.task = post.task := by
    simpa using hpost
  obtain ⟨n, hn, hcarries⟩ := exists_left_of_mem h.flip hmem
  refine ⟨?_, hcarries.singleHeaders⟩
  rw [listByTask_received, List.mem_filterMap] at hn
  obtain ⟨request, hrequest, hn⟩ := hn
  obtain ⟨other, hother, rfl⟩ := List.mem_map.mp hrequest
  obtain ⟨⟨key, n'⟩, hkept, hn⟩ := Option.bind_eq_some_iff.mp hn
  split at hn
  · rename_i hkey
    obtain rfl := Option.some.inj hn
    obtain rfl : key = .str post.task := hkey
    obtain ⟨hextract, -, rfl⟩ := kept_iff.mp hkept
    have hdata : other.data = post.data := hcarries.event
    rw [hdata] at hextract
    exact (extractTaskId_eq_iff post.nonempty).mp hextract
  · cases hn

/-- Recognised posts are kept under their tasks, in order. -/
theorem listed_of_recognised
    (h : ∀ post ∈ posts, Recognised post.data post.task ∧ SingleHeaders py post.request)
    (task : String) :
    List.Forall₂ (Carries py) (posts.filter fun post => post.task = task)
      ((received py (posts.map Post.request)).listByTask task) := by
  rw [listByTask_received, List.filterMap_map]
  induction posts with
  | nil => exact .nil
  | cons post rest ih =>
      obtain ⟨hrecognised, hsingle⟩ := h post (by simp)
      have hrest := ih fun p hp => h p (by simp [hp])
      rw [List.filter_cons, List.filterMap_cons]
      simp only [Function.comp_apply, kept_of_recognised hrecognised, Option.bind_some,
        Scalar.str.injEq, decide_eq_true_eq]
      by_cases htask : post.task = task
      · rw [if_pos htask, if_pos htask]
        exact .cons (carries_of_singleHeaders hsingle) hrest
      · rw [if_neg htask, if_neg htask]
        exact hrest

/-- Every post is accepted and handed out with its task exactly where the receiver
recognises each payload, each task can stand in a path and no request repeats a header. -/
theorem delivered_iff : Delivered py posts ↔ ∀ post ∈ posts,
    Recognised post.data post.task ∧ '/' ∉ post.task.toList ∧ SingleHeaders py post.request := by
  constructor
  · intro h post hpost
    obtain ⟨listed, hlisted⟩ := h.answered post hpost
    have hcarries := h.listed post.task listed hlisted
    obtain ⟨hsegment, rfl⟩ := listNotificationsByTask_eq_some_iff.mp hlisted
    obtain ⟨hrecognised, hsingle⟩ := recognised_of_listed hpost hcarries
    exact ⟨hrecognised, hsegment.2, hsingle⟩
  · intro h
    refine ⟨?_, ?_, ?_⟩
    · rintro before post after rfl
      obtain ⟨hrecognised, -⟩ := h post (by simp)
      obtain ⟨key, n, -, hadd⟩ | ⟨hnone, -, -⟩ := addNotification_eq
        (received py (before.map Post.request)) post.request
      · rw [hadd]
      · rw [kept_of_recognised hrecognised] at hnone
        cases hnone
    · intro post hpost
      have hsegment : IsSegment post.task := ⟨post.nonempty, (h post hpost).2.1⟩
      exact ⟨_, listNotificationsByTask_eq_some_iff.mpr ⟨hsegment, rfl⟩⟩
    · intro task listed hlisted
      obtain ⟨-, rfl⟩ := listNotificationsByTask_eq_some_iff.mp hlisted
      apply listed_of_recognised
      intro post hpost
      exact ⟨(h post hpost).1, (h post hpost).2.2⟩

/-- An update of a task as a v1.0 agent sends it. -/
def camelUpdate : List (Scalar × Value) :=
  [(.str "statusUpdate", .object [("taskId", .str "t1"), ("status", .object [
    ("message", .object [("role", .str "ROLE_AGENT"),
      ("parts", .list [.object [("text", .str "done")]])])])])]

def camelPost : Post where
  request := ⟨[("x-a2a-notification-token", "secret")], .ok (.dict camelUpdate)⟩
  data := camelUpdate
  task := "t1"
  parsed := rfl
  nonempty := by decide
  identifies := @Identifies.update _ _ "statusUpdate" "taskId" _ (by decide) (.inl rfl) rfl rfl

theorem camel_post_delivered : Delivered .plain [camelPost, camelPost] := by
  apply delivered_iff.mpr
  intro post hpost
  obtain rfl : post = camelPost := by simpa using hpost
  refine ⟨?_, by decide, ?_⟩
  · have harm : NoArm "task" camelPost.data := fun inner h => by cases h
    exact @Recognised.update _ camelPost.task _ harm rfl rfl
  · intro name v name' v' h h' _
    simp only [camelPost, List.mem_singleton, Prod.mk.injEq] at h h'
    rw [h.2, h'.2]

/-- The same update in snake case. -/
def snakeUpdate : List (Scalar × Value) :=
  [(.str "status_update", .object [("task_id", .str "t1"), ("status", .object [
    ("message", .object [("role", .str "ROLE_AGENT"),
      ("parts", .list [.object [("text", .str "done")]])])])])]

def snakePost : Post where
  request := ⟨[], .ok (.dict snakeUpdate)⟩
  data := snakeUpdate
  task := "t1"
  parsed := rfl
  nonempty := by decide
  identifies := @Identifies.update _ _ "status_update" "task_id" _ (by decide) (.inr rfl) rfl rfl

/-- A task whose id is more than one segment of a path. -/
def slashPost : Post where
  request := ⟨[], .ok (.dict [(.str "task", .object [("id", .str "a/b")])])⟩
  data := [(.str "task", .object [("id", .str "a/b")])]
  task := "a/b"
  parsed := rfl
  nonempty := by decide
  identifies := .task rfl rfl

/-- The readers understand the snake case update of a task and the receiver refuses it.
What it keeps for a task with a slash cannot be asked for. -/
theorem snake_update_refused :
    (¬ Delivered .plain [snakePost] ∧ readNotif (.dict snakePost.data) = .ok [.str "done"] ∧
      addNotification .plain [] snakePost.request =
        ([], .refused "Missing \"task_id\" in push notification.")) ∧
    ¬ Delivered .plain [slashPost] ∧
      (addNotification .plain [] slashPost.request).2 = .received ∧
      listNotificationsByTask (received .plain [slashPost.request]) "a/b" = none := by
  have hnone : listNotificationsByTask (received .plain [slashPost.request]) "a/b" = none :=
    if_neg fun h => h.2 (by decide)
  refine ⟨⟨fun h => ?_, rfl, rfl⟩, fun h => ?_, rfl, hnone⟩
  · have haccepted := h.accepted [] snakePost [] rfl
    cases haccepted
  · obtain ⟨listed, hlisted⟩ := h.answered slashPost (List.mem_singleton_self _)
    cases hnone.symm.trans hlisted

end Posts

end A2aItk.Notifications
