import A2aItk.Acts.Sessions
import A2aItk.Python.Joined

/-!
# What a request says

Over either binding the request of a call determines its operation and its params: over
JSON-RPC the params themselves, over REST what their texts say.

## Implementation notes

A REST path is read by its segments. A text with a slash in it would be taken for two of them.
-/

namespace A2aItk.Acts

open Python PathTemplate

section Routes

/-- The segments of the path of an operation, with a text for each placeholder. -/
def Operation.segments (texts : String → List Char) : Operation → List (List Char)
  | .sendMessage => ["message:send".toList]
  | .sendStreamingMessage => ["message:stream".toList]
  | .getTask => ["tasks".toList, texts "id"]
  | .listTasks => ["tasks".toList]
  | .cancelTask => ["tasks".toList, texts "id" ++ ":cancel".toList]
  | .subscribeToTask => ["tasks".toList, texts "id" ++ ":subscribe".toList]
  | .getAgentCard => [".well-known".toList, "agent-card.json".toList]
  | .getExtendedAgentCard => ["extendedAgentCard".toList]
  | .createPushConfig | .listPushConfigs =>
      ["tasks".toList, texts "taskId", "pushNotificationConfigs".toList]
  | .getPushConfig | .deletePushConfig =>
      ["tasks".toList, texts "taskId", "pushNotificationConfigs".toList, texts "id"]

/-- The operation that a method and a path stand for. -/
def routed : HttpMethod → List (List Char) → Option Operation
  | .post, [name] =>
      if name = "message:send".toList then some .sendMessage else some .sendStreamingMessage
  | .post, [_, last] =>
      if ":cancel".toList.isSuffixOf last then some .cancelTask else some .subscribeToTask
  | .post, [_, _, _] => some .createPushConfig
  | .get, [name] => if name = "tasks".toList then some .listTasks else some .getExtendedAgentCard
  | .get, [_, _] => some .getTask
  | .get, [_, _, _] => some .listPushConfigs
  | .get, [_, _, _, _] => some .getPushConfig
  | .delete, _ => some .deletePushConfig
  | _, _ => none

/-- The route of a call leads back to its operation, whatever the texts are. -/
theorem routed_segments (texts : String → List Char) {operation : Operation}
    (h : operation.httpOnly = false) :
    routed operation.restMethod (operation.segments texts) = some operation := by
  cases operation with
  | getAgentCard => cases h
  | cancelTask =>
      have hsuffix : ":cancel".toList.isSuffixOf (texts "id" ++ ":cancel".toList) = true := by
        rw [List.isSuffixOf_iff_suffix]
        exact List.suffix_append _ _
      change (if _ then _ else _) = _
      rw [if_pos hsuffix]
  | subscribeToTask =>
      have hsuffix : ¬ ":cancel".toList.isSuffixOf (texts "id" ++ ":subscribe".toList) = true := by
        rw [List.isSuffixOf_iff_suffix]
        rintro ⟨before, h⟩
        have hlast := congrArg List.getLast? h
        simp at hlast
      change (if _ then _ else _) = _
      rw [if_neg hsuffix]
  | sendMessage => rfl
  | sendStreamingMessage => rfl
  | getTask => rfl
  | listTasks => rfl
  | getExtendedAgentCard => rfl
  | createPushConfig => rfl
  | getPushConfig => rfl
  | listPushConfigs => rfl
  | deletePushConfig => rfl

variable {beyond : Char → Bool}

/-- A path is its segments, each after a slash. -/
theorem fill_scan_restPath (texts : String → List Char) (operation : Operation) :
    fill texts (scan beyond operation.restPath.toList) =
      (operation.segments texts).flatMap ('/' :: ·) := by
  have hverb : ∀ verb : List Char,
      "/tasks/".toList ++ (texts "id" ++ verb) =
        ["tasks".toList, texts "id" ++ verb].flatMap ('/' :: ·) := by
    intro verb
    exact congrArg ("/tasks/".toList ++ ·) (List.append_nil (texts "id" ++ verb)).symm
  cases operation with
  | cancelTask => exact hverb ":cancel".toList
  | subscribeToTask => exact hverb ":subscribe".toList
  | sendMessage => rfl
  | sendStreamingMessage => rfl
  | getTask => rfl
  | listTasks => rfl
  | getAgentCard => rfl
  | getExtendedAgentCard => rfl
  | createPushConfig => rfl
  | getPushConfig => rfl
  | listPushConfigs => rfl
  | deletePushConfig => rfl

/-- The names of the placeholders of a path. -/
def Operation.pathNames : Operation → List String
  | .getTask | .cancelTask | .subscribeToTask => ["id"]
  | .createPushConfig | .listPushConfigs => ["taskId"]
  | .getPushConfig | .deletePushConfig => ["taskId", "id"]
  | _ => []

theorem pathParams_restPath (operation : Operation) :
    pathParams beyond operation.restPath = operation.pathNames := by
  cases operation <;> rfl

/-- No segment has a slash where no text does. -/
theorem slash_notMem_segments {texts : String → List Char} {operation : Operation}
    (h : ∀ name ∈ operation.pathNames, '/' ∉ texts name) :
    ∀ segment ∈ operation.segments texts, '/' ∉ segment := by
  have hnames : ∀ name ∈ operation.pathNames, '/' ∉ texts name := h
  cases operation <;> simp_all [Operation.segments, Operation.pathNames]

/-- The texts are read off the segments. -/
theorem texts_of_segments {texts texts' : String → List Char} {operation : Operation}
    (h : operation.segments texts = operation.segments texts') :
    ∀ name ∈ operation.pathNames, texts name = texts' name := by
  cases operation <;> simp_all [Operation.segments, Operation.pathNames]

end Routes

section Calls

variable {σ : Type} (d : HttpDispatcher σ)

theorem exists_first_segment (texts : String → List Char) (operation : Operation) :
    ∃ c cs rest, operation.segments texts = (c :: cs) :: rest := by
  cases operation <;> exact ⟨_, _, _, rfl⟩

/-- The path of an operation is joined to the base. -/
theorem url_segments (texts : String → List Char) (operation : Operation) :
    (d.url (String.ofList ((operation.segments texts).flatMap ('/' :: ·)))).toList =
      Text.rstripChar '/' d.baseUrl.toList ++ (operation.segments texts).flatMap ('/' :: ·) := by
  obtain ⟨c, cs, rest, hsegments⟩ := exists_first_segment texts operation
  have hpath : String.ofList ((operation.segments texts).flatMap ('/' :: ·)) ≠ "/" := by
    intro h
    have hlist := congrArg String.toList h
    rw [hsegments, String.toList_ofList] at hlist
    cases hlist
  rw [HttpDispatcher.url, if_neg hpath, String.toList_ofList, String.toList_ofList, hsegments]
  rfl

/-- Calls with one method and one URL have one operation, and the same texts in the path. -/
theorem operation_of_url {operation operation' : Operation} {texts texts' : String → List Char}
    (hrpc : operation.httpOnly = false) (hrpc' : operation'.httpOnly = false)
    (hslash : ∀ name ∈ operation.pathNames, '/' ∉ texts name)
    (hslash' : ∀ name ∈ operation'.pathNames, '/' ∉ texts' name)
    (hmethod : operation.restMethod = operation'.restMethod)
    (hurl : d.url (String.ofList ((operation.segments texts).flatMap ('/' :: ·))) =
      d.url (String.ofList ((operation'.segments texts').flatMap ('/' :: ·)))) :
    operation = operation' ∧ ∀ name ∈ operation.pathNames, texts name = texts' name := by
  have hpaths := congrArg String.toList hurl
  rw [url_segments, url_segments, List.append_cancel_left_eq] at hpaths
  have hsegments := flatMap_cons_inj (slash_notMem_segments hslash)
    (slash_notMem_segments hslash') hpaths
  have hroute := routed_segments texts hrpc
  rw [hmethod, hsegments, routed_segments texts' hrpc', Option.some.injEq] at hroute
  subst hroute
  exact ⟨rfl, texts_of_segments hsegments⟩

/-- The params of a call as its request message. -/
def adapted (operation : Operation) (params : Fields) : Dict String Value :=
  Dict.ofList (adapt operation params)

/-- The path of the call can be read back. -/
structure Readable (operation : Operation) (params : Fields) : Prop where
  unmistakable : Unmistakable d.py d.beyond operation.restPath (adapted operation params)
  noSlash : ∀ name ∈ operation.pathNames,
    '/' ∉ paramText d.py (adapted operation params) name

/-- What a binding says of a param. -/
def spelled (b : HttpBinding) (py : Interpreter) (operation : Operation) (key : String)
    (v : Value) : Value :=
  match b with
  | .jsonrpc => v
  | .rest =>
      if key ∈ operation.pathNames then .str (v.text py)
      else if operation.restMethod ∈ Rest.queryMethods then .str (Rest.queryText py v)
      else v

/-- The split of a readable call: the path filled in at once, and the other params. -/
theorem splitParams_eq {operation : Operation} {params : Fields} {path : String}
    {rest : Dict String Value} (hreadable : Readable d operation params)
    (h : Rest.splitParams d operation params = .ok (path, rest)) :
    (∀ name ∈ operation.pathNames, name ∈ (adapted operation params).keys) ∧
      path = String.ofList ((operation.segments
        (paramText d.py (adapted operation params))).flatMap ('/' :: ·)) ∧
      rest = (adapted operation params).filter fun entry => entry.1 ∉ operation.pathNames := by
  have hheld : ∀ name ∈ pathParams d.beyond operation.restPath,
      name ∈ (adapted operation params).keys := by
    obtain ⟨result, hnames, -⟩ := map_eq_ok_iff.mp h
    exact (formatNames_eq_ok_iff.mp hnames).2.1
  have hfilled := formatPath_of_unmistakable hheld hreadable.unmistakable
  obtain ⟨rfl, rfl⟩ := Prod.mk.inj (Except.ok.inj (h.symm.trans hfilled))
  rw [pathParams_restPath] at hheld
  refine ⟨hheld, ?_, ?_⟩
  · rw [filledPath, fill_scan_restPath]
  · rw [otherParams, pathParams_restPath]

/-- What `_stringify` makes of a param. -/
theorem get?_stringify (params : Dict String Value) (key : String) :
    (Rest.stringify d params).get? key = (params.get? key).map (Rest.queryText d.py) := by
  have hkeys : (params.entries.map fun entry => (entry.1, Rest.queryText d.py entry.2)).map
      Prod.fst = params.keys := by
    rw [List.map_map]
    rfl
  have hentries : (Rest.stringify d params).entries =
      params.entries.map fun entry => (entry.1, Rest.queryText d.py entry.2) :=
    Dict.entries_ofList_of_nodup (hkeys ▸ params.distinct)
  rw [Dict.get?, hentries, Dict.get?]
  induction params.entries with
  | nil => rfl
  | cons entry rest ih =>
      rw [List.map_cons, List.lookup_cons, List.lookup_cons, ih]
      cases key == entry.1 <;> rfl

theorem get?_of_entries_eq_nil {α : Type} {params : Dict String α} (h : params.entries = [])
    (key : String) : params.get? key = none := by
  rw [Dict.get?, h]
  rfl

/-- A query says every param it is made of. -/
theorem get?_queryText {operation : Operation} {path : String} {rest : Dict String Value}
    {headers : Headers} (hmethod : operation.restMethod ∈ Rest.queryMethods) (key : String) :
    ((Rest.callRequest d operation path rest headers).query.bind fun query => query.get? key) =
      (rest.get? key).map (Rest.queryText d.py) := by
  unfold Rest.callRequest
  dsimp only
  by_cases hrest : rest.entries = []
  · rw [if_neg fun h => h.2 hrest, get?_of_entries_eq_nil hrest]
    rfl
  · rw [if_pos ⟨hmethod, hrest⟩]
    exact get?_stringify d rest key

/-- The content of a request as JSON. -/
def bodyOf (request : HttpRequest) : Value :=
  match request.content with
  | some (.json v) => v
  | _ => .null

/-- A body says every param it is made of. -/
theorem get?_body {operation : Operation} {path : String} {rest : Dict String Value}
    {headers : Headers} (hmethod : operation.restMethod ∉ Rest.queryMethods) (key : String) :
    (bodyOf (Rest.callRequest d operation path rest headers)).get? (.str key) = rest.get? key := by
  unfold bodyOf Rest.callRequest
  dsimp only
  by_cases hrest : rest.entries = []
  · rw [if_neg fun h => h.2 hrest, get?_of_entries_eq_nil hrest]
    rfl
  · rw [if_pos ⟨hmethod, hrest⟩]
    exact Value.lookup_object key rest.entries

/-- The params that no placeholder names. -/
theorem get?_rest {operation : Operation} {params : Dict String Value} {key : String}
    (hkey : key ∉ operation.pathNames) :
    (params.filter fun entry => entry.1 ∉ operation.pathNames).get? key = params.get? key := by
  apply Option.ext
  intro v
  rw [Dict.get?_filter_eq_some_iff]
  simp [hkey]

/-- The body without the id of its envelope. -/
def withoutId : Option Content → Option Content
  | some (.json (.dict entries)) =>
      some (.json (.dict (entries.filter fun entry => !entry.1.eq (.str "id"))))
  | content => content

/-- What of a request an agent goes by; over JSON-RPC the id is of the request and not of the
call. -/
def SameRequest (b : HttpBinding) (r r' : HttpRequest) : Prop :=
  r.method = r'.method ∧ r.url = r'.url ∧ r.query = r'.query ∧
    (b = .rest → r.content = r'.content) ∧
    (b = .jsonrpc → withoutId r.content = withoutId r'.content)

/-- Over REST, the operation and the texts of the params. -/
theorem rest_meaning {operation operation' : Operation} {params params' : Fields}
    {path path' : String} {rest rest' : Dict String Value} {headers headers' : Headers}
    (hrpc : operation.httpOnly = false) (hrpc' : operation'.httpOnly = false)
    (hreadable : Readable d operation params) (hreadable' : Readable d operation' params')
    (hsplit : Rest.splitParams d operation params = .ok (path, rest))
    (hsplit' : Rest.splitParams d operation' params' = .ok (path', rest'))
    (hsame : SameRequest .rest (Rest.callRequest d operation path rest headers)
      (Rest.callRequest d operation' path' rest' headers')) :
    operation = operation' ∧ ∀ key,
      ((adapted operation params).get? key).map (spelled .rest d.py operation key) =
        ((adapted operation' params').get? key).map (spelled .rest d.py operation key) := by
  obtain ⟨hheld, rfl, rfl⟩ := splitParams_eq d hreadable hsplit
  obtain ⟨hheld', rfl, rfl⟩ := splitParams_eq d hreadable' hsplit'
  obtain ⟨hmethod, hurl, hquery, hcontent, -⟩ := hsame
  obtain ⟨rfl, htexts⟩ := operation_of_url d hrpc hrpc' hreadable.noSlash hreadable'.noSlash
    hmethod hurl
  refine ⟨rfl, fun key => ?_⟩
  by_cases hkey : key ∈ operation.pathNames
  · -- both have the param, and its text is in the path
    obtain ⟨v, hv⟩ : ∃ v, (adapted operation params).get? key = some v :=
      Option.ne_none_iff_exists'.mp (mt Dict.get?_eq_none_iff.mp (not_not.mpr (hheld key hkey)))
    obtain ⟨v', hv'⟩ : ∃ v, (adapted operation params').get? key = some v :=
      Option.ne_none_iff_exists'.mp (mt Dict.get?_eq_none_iff.mp (not_not.mpr (hheld' key hkey)))
    have htext := htexts key hkey
    rw [paramText_of_get? hv, paramText_of_get? hv', String.toList_inj] at htext
    simp [hv, hv', spelled, hkey, htext]
  · by_cases hquerying : operation.restMethod ∈ Rest.queryMethods
    · have hread := congrArg (fun query => query.bind fun query => query.get? key) hquery
      rw [get?_queryText d hquerying key, get?_queryText d hquerying key, get?_rest hkey,
        get?_rest hkey] at hread
      have hspelled : spelled .rest d.py operation key = Value.str ∘ Rest.queryText d.py := by
        funext v
        simp [spelled, hkey, hquerying]
      rw [hspelled, ← Option.map_map, ← Option.map_map, hread]
    · have hbody : bodyOf (Rest.callRequest d operation
            (String.ofList ((operation.segments
              (paramText d.py (adapted operation params))).flatMap ('/' :: ·)))
            ((adapted operation params).filter fun entry => entry.1 ∉ operation.pathNames)
            headers) =
          bodyOf (Rest.callRequest d operation
            (String.ofList ((operation.segments
              (paramText d.py (adapted operation params'))).flatMap ('/' :: ·)))
            ((adapted operation params').filter fun entry => entry.1 ∉ operation.pathNames)
            headers') := by
        rw [bodyOf, bodyOf, hcontent rfl]
      have hread := congrArg (fun body => body.get? (.str key)) hbody
      rw [get?_body d hquerying key, get?_body d hquerying key, get?_rest hkey, get?_rest hkey]
        at hread
      rw [hread]

/-- The operations that are called by a method. -/
def methods : List Operation :=
  [.sendMessage, .sendStreamingMessage, .getTask, .listTasks, .cancelTask, .subscribeToTask,
    .getExtendedAgentCard, .createPushConfig, .getPushConfig, .listPushConfigs, .deletePushConfig]

theorem find?_jsonrpcMethod {operation : Operation} (h : operation.httpOnly = false) :
    methods.find? (fun other => other.jsonrpcMethod = operation.jsonrpcMethod) =
      some operation := by
  cases operation <;> first | rfl | cases h

theorem withoutId_envelope (id : ℕ) (operation : Operation) (params : Fields) :
    withoutId (some (.json (JsonRpc.envelope id operation params))) =
      some (.json (.object [("jsonrpc", .str "2.0"), ("method", .str operation.jsonrpcMethod),
        ("params", .object (adapt operation params))])) := rfl

/-- Over JSON-RPC, the operation and the params as they are. -/
theorem jsonrpc_meaning {operation operation' : Operation} {params params' : Fields} {id id' : ℕ}
    {headers headers' : Headers} (hrpc : operation.httpOnly = false)
    (hrpc' : operation'.httpOnly = false)
    (hsame : SameRequest .jsonrpc (JsonRpc.callRequest d id operation params headers)
      (JsonRpc.callRequest d id' operation' params' headers')) :
    operation = operation' ∧ adapt operation params = adapt operation' params' := by
  obtain ⟨-, -, -, -, hcontent⟩ := hsame
  have hbody := Content.json.inj (Option.some.inj
    ((withoutId_envelope id operation params).symm.trans
      ((hcontent rfl).trans (withoutId_envelope id' operation' params'))))
  simp only [Value.object, Value.dict.injEq, List.map_cons, List.cons.injEq, Prod.mk.injEq,
    Value.scalar.injEq, Scalar.str.injEq, true_and, and_true] at hbody
  obtain ⟨hmethod, hparams⟩ := hbody
  have hoperation := find?_jsonrpcMethod hrpc
  rw [hmethod, find?_jsonrpcMethod hrpc', Option.some.injEq] at hoperation
  subst hoperation
  refine ⟨rfl, List.map_injective_iff.mpr ?_ hparams⟩
  rintro ⟨key, v⟩ ⟨key', v'⟩ h
  simpa using h

/-- The request of a call tells the operation and its params as the dispatcher adapts them: over
JSON-RPC the adapted params themselves, and over REST their texts, each at its key, where no text
of the path has a slash or is taken for a placeholder. No two calls that differ in this share a
request. -/
theorem requestOf_determines (b : HttpBinding) {operation operation' : Operation}
    {params params' : Fields} {headers headers' : Headers} {id id' : ℕ}
    {request request' : HttpRequest}
    (hrpc : (operation.resolve params).httpOnly = false)
    (hrpc' : (operation'.resolve params').httpOnly = false)
    (hreadable : b = .rest → Readable d (operation.resolve params) params)
    (hreadable' : b = .rest → Readable d (operation'.resolve params') params')
    (hrequest : requestOf b d id (.dispatch operation params headers) = .ok request)
    (hrequest' : requestOf b d id' (.dispatch operation' params' headers') = .ok request')
    (hsame : SameRequest b request request') :
    operation.resolve params = operation'.resolve params' ∧ ∀ key,
      ((adapted (operation.resolve params) params).get? key).map
          (spelled b d.py (operation.resolve params) key) =
        ((adapted (operation'.resolve params') params').get? key).map
          (spelled b d.py (operation.resolve params) key) := by
  have hnot : ¬ (operation.resolve params).httpOnly = true := by simp [hrpc]
  have hnot' : ¬ (operation'.resolve params').httpOnly = true := by simp [hrpc']
  cases b with
  | jsonrpc =>
      simp only [requestOf, if_neg hnot] at hrequest
      simp only [requestOf, if_neg hnot'] at hrequest'
      cases hrequest
      cases hrequest'
      obtain ⟨hoperation, hparams⟩ := jsonrpc_meaning d hrpc hrpc' hsame
      exact ⟨hoperation, fun key => by rw [adapted, adapted, hparams]⟩
  | rest =>
      simp only [requestOf, if_neg hnot] at hrequest
      simp only [requestOf, if_neg hnot'] at hrequest'
      obtain ⟨⟨path, rest⟩, hsplit, hrequest⟩ := bind_eq_ok_iff.mp hrequest
      obtain ⟨⟨path', rest'⟩, hsplit', hrequest'⟩ := bind_eq_ok_iff.mp hrequest'
      cases hrequest
      cases hrequest'
      exact rest_meaning d hrpc hrpc' (hreadable rfl) (hreadable' rfl)
        (mapError_eq_ok_iff.mp hsplit) (mapError_eq_ok_iff.mp hsplit') hsame

end Calls

section Instance

/-- A path with one placeholder cannot be mistaken. -/
theorem unmistakable_of_single {py : Interpreter} {beyond : Char → Bool} {operation : Operation}
    {params : Dict String Value} {name : String} (h : operation.pathNames = [name]) :
    Unmistakable py beyond operation.restPath params where
  distinct := by
    rw [pathParams_restPath, h]
    exact List.nodup_singleton name
  once := by
    intro earlier other later hsplit
    rw [pathParams_restPath, h] at hsplit
    obtain rfl : earlier = [] := by
      cases earlier with
      | nil => rfl
      | cons first rest => simp at hsplit
    have hdistinct : (pathParams beyond operation.restPath).Nodup := by
      rw [pathParams_restPath, h]
      exact List.nodup_singleton name
    exact .inl (once_first ((pathParams_restPath operation).trans (h.trans hsplit)) hdistinct)

/-- A dispatcher whose client reaches nobody. -/
def deafDispatcher : HttpDispatcher Unit where
  py := .plain
  beyond _ := false
  client := {
    request := fun _ s => (.error (.httpError "ConnectError: refused"), s)
    stream := fun _ _ s => (.error (.httpError "ConnectError: refused"), s)
    loads := fun _ => none }
  dialect := restDialect .plain
  baseUrl := "http://127.0.0.1:8080/rest/"

def taskParams : Fields := [("id", .str "t1"), ("historyLength", .int 2)]

def taskRequest : HttpRequest where
  method := .get
  url := "http://127.0.0.1:8080/rest/tasks/t1"
  headers := ⟨[("Content-Type", "application/a2a+json"), ("A2A-Version", "1.0")], by decide⟩
  query := some ⟨[("historyLength", "2")], by decide⟩

theorem taskParams_readable : Readable deafDispatcher .getTask taskParams where
  unmistakable := unmistakable_of_single rfl
  noSlash := by decide +kernel

/-- The same call over JSON-RPC. -/
def taskEnvelope (id : ℕ) : HttpRequest where
  method := .post
  url := "http://127.0.0.1:8080/rest/"
  headers := ⟨[("Content-Type", "application/json"), ("A2A-Version", "1.0")], by decide⟩
  content := some (.json (.object [("jsonrpc", .str "2.0"), ("id", .int id),
    ("method", .str "GetTask"), ("params", .object taskParams)]))

theorem requestOf_determines_task :
    (requestOf .rest deafDispatcher 1 (.dispatch .getTask taskParams [("A2A-Version", "1.0")]) =
        .ok taskRequest ∧
      (Operation.getTask.resolve taskParams = Operation.getTask.resolve taskParams.reverse ∧
        ∀ key, ((adapted .getTask taskParams).get? key).map
            (spelled .rest .plain .getTask key) =
          ((adapted .getTask taskParams.reverse).get? key).map
            (spelled .rest .plain .getTask key))) ∧
      let d := { deafDispatcher with dialect := jsonrpcDialect .plain }
      requestOf .jsonrpc d 1 (.dispatch .getTask taskParams [("A2A-Version", "1.0")]) =
        .ok (taskEnvelope 1) ∧
      (Operation.getTask.resolve taskParams = Operation.getTask.resolve taskParams ∧
        ∀ key, ((adapted .getTask taskParams).get? key).map
            (spelled .jsonrpc .plain .getTask key) =
          ((adapted .getTask taskParams).get? key).map
            (spelled .jsonrpc .plain .getTask key)) := by
  have hrequest : requestOf .rest deafDispatcher 1
      (.dispatch .getTask taskParams [("A2A-Version", "1.0")]) = .ok taskRequest := rfl
  refine ⟨⟨hrequest, ?_⟩, ?_⟩
  · exact requestOf_determines deafDispatcher .rest rfl rfl (fun _ => taskParams_readable)
      (fun _ => ⟨unmistakable_of_single rfl, by decide +kernel⟩) hrequest
      (show requestOf .rest deafDispatcher 1
        (.dispatch .getTask taskParams.reverse [("A2A-Version", "1.0")]) = .ok taskRequest
        from rfl)
      ⟨rfl, rfl, rfl, fun _ => rfl, fun h => by cases h⟩
  · have hsent (id : ℕ) : requestOf .jsonrpc
        { deafDispatcher with dialect := jsonrpcDialect .plain } id
        (.dispatch .getTask taskParams [("A2A-Version", "1.0")]) = .ok (taskEnvelope id) := rfl
    refine ⟨hsent 1, ?_⟩
    exact requestOf_determines { deafDispatcher with dialect := jsonrpcDialect .plain } .jsonrpc
      rfl rfl (fun h => by cases h) (fun h => by cases h) (hsent 1) (hsent 2)
      ⟨rfl, rfl, rfl, (fun h => by cases h), fun _ => rfl⟩

end Instance

end A2aItk.Acts
