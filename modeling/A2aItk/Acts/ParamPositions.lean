import A2aItk.Acts.Adaptation

/-!
# Where the values of adapted params end up

Adapting moves some values to another path of keys and leaves the others where they
are. A value gives way only to an explicit one at the path it would move to.
-/

namespace A2aItk.Acts

open Python

namespace Adaptation

section Positions

/-- The value a path of keys leads to. -/
def valueAt : List Scalar → Value → Option Value
  | [], v => some v
  | key :: path, .dict entries => (Entries.lookup key entries).bind (valueAt path)
  | _ :: _, _ => none

/-- The names that belong into the message. -/
def scopedKeys : List Scalar := messageScopedParams.map .str

/-- Below a message, if there is one, the names that qualify it. -/
def foldTarget (params : List (Scalar × Value)) : List Scalar → List Scalar
  | [] => []
  | key :: path =>
      if key ∈ scopedKeys ∧ (mappingAt params "message").isSome then
        .str "message" :: key :: path
      else key :: path

/-- At the top level, what was below the nested config. -/
def flattenTarget : List Scalar → List Scalar
  | [] => []
  | key :: path =>
      if key = .str nestedPushConfigParam ∧ path ≠ [] then path else key :: path

/-- The path a value moves to. -/
def target (operation : Operation) (params : List (Scalar × Value)) (path : List Scalar) :
    List Scalar :=
  match operation with
  | .sendMessage | .sendStreamingMessage => foldTarget params path
  | .createPushConfig => flattenTarget path
  | _ => path

/-- An explicit value is at the place the entry would move to. -/
def Overridden (operation : Operation) (params : List (Scalar × Value)) (path : List Scalar) :
    Prop :=
  match operation with
  | .sendMessage | .sendStreamingMessage => ∃ key rest, path = key :: rest ∧
      key ∈ scopedKeys ∧ (valueAt [.str "message", key] (.dict params)).isSome
  | .createPushConfig => ∃ key rest, path = .str nestedPushConfigParam :: key :: rest ∧
      key ≠ .str nestedPushConfigParam ∧ (valueAt [key] (.dict params)).isSome
  | _ => False

/-- The operation rebuilds its params. -/
def Rebuilt (operation : Operation) (params : List (Scalar × Value)) : Prop :=
  match operation with
  | .sendMessage | .sendStreamingMessage => (mappingAt params "message").isSome
  | .createPushConfig => (Entries.lookup (.str nestedPushConfigParam) params).isSome
  | .getExtendedAgentCard => (Entries.lookup (.str operationSelectingParam) params).isSome
  | _ => False

/-- A name beside the message, and not in it, is folded into it. -/
def Folded (params : List (Scalar × Value)) : Prop :=
  ∃ message, mappingAt params "message" = some message ∧
    ∃ name ∈ messageScopedParams, (Entries.lookup (.str name) params).isSome ∧
      Entries.lookup (.str name) message = none

/-- The paths at which no value is kept as it is: params that are rebuilt, the message names
are folded into, the nested config, and the flag that selected the extended card. -/
def Consumed (operation : Operation) (params : List (Scalar × Value)) (path : List Scalar) :
    Prop :=
  (path = [] ∧ Rebuilt operation params) ∨
    match operation with
    | .sendMessage | .sendStreamingMessage => path = [.str "message"] ∧ Folded params
    | .createPushConfig => path = [.str nestedPushConfigParam]
    | .getExtendedAgentCard => path.head? = some (.str operationSelectingParam)
    | _ => False

end Positions

section Lookups

variable {params message nested : List (Scalar × Value)} {k : Scalar}

theorem lookup_of_mappingAt {key : String} (h : mappingAt params key = some nested) :
    Entries.lookup (.str key) params = some (.dict nested) := by
  unfold mappingAt at h
  split at h
  · rename_i hdict
    rw [hdict, Option.some.inj h]
  · cases h

theorem mappingAt_of_lookup {key : String}
    (h : Entries.lookup (.str key) params = some (.dict nested)) :
    mappingAt params key = some nested := by
  rw [mappingAt, h]

theorem mappingAt_eq_none_of_lookup {key : String} (h : Entries.lookup (.str key) params = none) :
    mappingAt params key = none := by
  rw [mappingAt, h]

/-- One turn takes the name from the params, and gives it to a message without it. -/
theorem lookup_foldName (state : List (Scalar × Value) × List (Scalar × Value)) (name : String)
    (k : Scalar) :
    Entries.lookup k (foldName state name).1 =
        (if k = .str name then none else Entries.lookup k state.1) ∧
      Entries.lookup k (foldName state name).2 =
        (Entries.lookup k state.2).or
          (if k = .str name then Entries.lookup k state.1 else none) := by
  unfold foldName
  split
  · rename_i hnone
    by_cases hk : k = .str name
    · rw [if_pos hk, if_pos hk, hk, hnone, Option.or_none]
      exact ⟨rfl, rfl⟩
    · rw [if_neg hk, if_neg hk, Option.or_none]
      exact ⟨rfl, rfl⟩
  · rename_i v hv
    rw [Entries.lookup_setDefault]
    by_cases hk : k = .str name
    · rw [if_pos hk, if_pos hk, if_pos (Entries.str_eq_iff.mpr hk), hk, hv]
      exact ⟨Entries.lookup_pop_self _ _, rfl⟩
    · rw [if_neg hk, if_neg hk, if_neg (mt Entries.str_eq_iff.mp hk)]
      exact ⟨Entries.lookup_pop_of_ne (Entries.str_eq_false hk) _, rfl⟩

/-- All turns together take the names from the params and give the message those it lacks. -/
theorem lookup_foldl_foldName (names : List String)
    (state : List (Scalar × Value) × List (Scalar × Value)) (k : Scalar) :
    Entries.lookup k (names.foldl foldName state).1 =
        (if k ∈ names.map Scalar.str then none else Entries.lookup k state.1) ∧
      Entries.lookup k (names.foldl foldName state).2 =
        (Entries.lookup k state.2).or
          (if k ∈ names.map Scalar.str then Entries.lookup k state.1 else none) := by
  induction names generalizing state with
  | nil => simp
  | cons name names ih =>
      obtain ⟨hparams, hmessage⟩ := lookup_foldName state name k
      obtain ⟨hparams', hmessage'⟩ := ih (foldName state name)
      rw [List.foldl_cons, hparams', hmessage', hparams, hmessage, List.map_cons]
      by_cases hk : k = .str name <;> by_cases hin : k ∈ names.map Scalar.str <;>
        simp [hk, hin]

/-- A message that names nothing, or has each name already, is left as it is. -/
theorem foldl_foldName_message {names : List String}
    {state : List (Scalar × Value) × List (Scalar × Value)}
    (h : ∀ name ∈ names, Entries.lookup (.str name) state.1 = none ∨
      (Entries.lookup (.str name) state.2).isSome) :
    (names.foldl foldName state).2 = state.2 := by
  induction names generalizing state with
  | nil => rfl
  | cons name names ih =>
      rw [List.forall_mem_cons] at h
      have hstep : (foldName state name).2 = state.2 := by
        unfold foldName
        split
        · rfl
        · rename_i v hv
          have hhas : (Entries.lookup (.str name) state.2).isSome := by simpa [hv] using h.1
          rw [Entries.setDefault, if_pos hhas]
      rw [List.foldl_cons, ih, hstep]
      intro name' hname'
      rw [hstep, (lookup_foldName state name _).1]
      split
      · exact .inl rfl
      · exact h.2 name' hname'

/-- What is lifted gives way to what is there. -/
theorem lookup_foldl_lift (nested params : List (Scalar × Value)) (k : Scalar) :
    Entries.lookup k (nested.foldl lift params) =
      (Entries.lookup k params).or (Entries.lookup k nested) := by
  induction nested generalizing params with
  | nil => simp
  | cons entry nested ih =>
      rw [List.foldl_cons, ih, lift, Entries.lookup_setDefault, Entries.lookup_cons,
        Option.or_assoc]
      split <;> simp

theorem foldIntoMessage_of_message (h : mappingAt params "message" = some message) :
    foldIntoMessage params =
      Entries.setItem (.str "message")
        (.dict (messageScopedParams.foldl foldName (params, message)).2)
        (messageScopedParams.foldl foldName (params, message)).1 := by
  simp only [foldIntoMessage, h]

theorem foldIntoMessage_of_none (h : mappingAt params "message" = none) :
    foldIntoMessage params = params := by
  simp only [foldIntoMessage, h]

theorem flattenPushConfig_of_nested (h : mappingAt params nestedPushConfigParam = some nested) :
    flattenPushConfig params =
      nested.foldl lift (Entries.pop (.str nestedPushConfigParam) params) := by
  simp only [flattenPushConfig, h]

theorem flattenPushConfig_of_none (h : mappingAt params nestedPushConfigParam = none) :
    flattenPushConfig params = Entries.pop (.str nestedPushConfigParam) params := by
  simp only [flattenPushConfig, h]

end Lookups

section Idempotence

variable {params : List (Scalar × Value)}

theorem foldl_foldName_of_missing {names : List String}
    {state : List (Scalar × Value) × List (Scalar × Value)}
    (h : ∀ name ∈ names, Entries.lookup (.str name) state.1 = none) :
    names.foldl foldName state = state := by
  induction names with
  | nil => rfl
  | cons name names ih =>
      rw [List.forall_mem_cons] at h
      have hstep : foldName state name = state := by rw [foldName, h.1]
      rw [List.foldl_cons, hstep]
      exact ih h.2

/-- Folding twice folds no further. -/
theorem foldIntoMessage_foldIntoMessage (params : List (Scalar × Value)) :
    foldIntoMessage (foldIntoMessage params) = foldIntoMessage params := by
  cases hmessage : mappingAt params "message" with
  | none => rw [foldIntoMessage_of_none hmessage, foldIntoMessage_of_none hmessage]
  | some message =>
      rw [foldIntoMessage_of_message hmessage]
      have hlookup := lookup_foldl_foldName messageScopedParams (params, message)
      generalize messageScopedParams.foldl foldName (params, message) = moved at hlookup ⊢
      have hfolded := mappingAt_of_lookup
        (Entries.lookup_setItem_self "message" (.dict moved.2) moved.1)
      -- the names are gone from the params, so nothing is folded the second time
      have hmissing : ∀ name ∈ messageScopedParams, Entries.lookup (.str name)
          (Entries.setItem (.str "message") (.dict moved.2) moved.1) = none := by
        intro name hname
        have hne : Scalar.str name ≠ .str "message" := by
          rintro ⟨⟩
          exact absurd hname (by decide)
        rw [Entries.lookup_setItem_of_ne (Entries.str_eq_false hne), (hlookup _).1,
          if_pos (List.mem_map_of_mem hname)]
      rw [foldIntoMessage_of_message hfolded, foldl_foldName_of_missing hmissing,
        Entries.setItem_setItem]

theorem flattenPushConfig_of_missing
    (h : Entries.lookup (.str nestedPushConfigParam) params = none) :
    flattenPushConfig params = params := by
  rw [flattenPushConfig_of_none (mappingAt_eq_none_of_lookup h), Entries.pop_eq_self h]

/-- A config that nests no other one is lifted once and for all. -/
theorem flattenPushConfig_flattenPushConfig
    (h : valueAt [.str nestedPushConfigParam, .str nestedPushConfigParam] (.dict params) = none) :
    flattenPushConfig (flattenPushConfig params) = flattenPushConfig params := by
  apply flattenPushConfig_of_missing
  cases hnested : mappingAt params nestedPushConfigParam with
  | none =>
      rw [flattenPushConfig_of_none hnested]
      exact Entries.lookup_pop_self _ _
  | some nested =>
      have hmissing : Entries.lookup (.str nestedPushConfigParam) nested = none := by
        simpa [valueAt, lookup_of_mappingAt hnested] using h
      rw [flattenPushConfig_of_nested hnested, lookup_foldl_lift, Entries.lookup_pop_self,
        hmissing, Option.none_or]

/-- Adapting twice adapts no further, unless a config nests another one. -/
theorem adapt_adapt (operation : Operation)
    (h : operation = .createPushConfig →
      valueAt [.str nestedPushConfigParam, .str nestedPushConfigParam] (.dict params) = none) :
    adapt operation (adapt operation params) = adapt operation params := by
  cases operation with
  | sendMessage => exact foldIntoMessage_foldIntoMessage params
  | sendStreamingMessage => exact foldIntoMessage_foldIntoMessage params
  | createPushConfig => exact flattenPushConfig_flattenPushConfig (h rfl)
  | getExtendedAgentCard => exact Entries.pop_eq_self (Entries.lookup_pop_self _ _)
  | _ => rfl

end Idempotence

section Lossless

variable {params : List (Scalar × Value)} {path : List Scalar} {v : Value}

theorem valueAt_cons (key : Scalar) (path : List Scalar) (entries : List (Scalar × Value)) :
    valueAt (key :: path) (.dict entries) =
      (Entries.lookup key entries).bind (valueAt path) := rfl

theorem valueAt_singleton (key : Scalar) (entries : List (Scalar × Value)) :
    valueAt [key] (.dict entries) = Entries.lookup key entries := by
  rw [valueAt_cons]
  cases Entries.lookup key entries <;> rfl

theorem valueAt_congr {key : Scalar} {entries entries' : List (Scalar × Value)}
    (h : Entries.lookup key entries = Entries.lookup key entries') (path : List Scalar) :
    valueAt (key :: path) (.dict entries) = valueAt (key :: path) (.dict entries') := by
  rw [valueAt_cons, valueAt_cons, h]

/-- Only a mapping has values below it. -/
theorem valueAt_below (key : String) (inner : Scalar) (path : List Scalar)
    (params : List (Scalar × Value)) :
    valueAt (.str key :: inner :: path) (.dict params) =
      (mappingAt params key).bind fun entries => valueAt (inner :: path) (.dict entries) := by
  rw [valueAt_cons, mappingAt]
  cases Entries.lookup (.str key) params with
  | none => rfl
  | some v => cases v <;> rfl

/-- Names end up below the message, everything else where it was. -/
theorem valueAt_foldIntoMessage (hkept : ¬ Consumed .sendMessage params path)
    (hv : valueAt path (.dict params) = some v) :
    valueAt (foldTarget params path) (.dict (foldIntoMessage params)) = some v ∨
      Overridden .sendMessage params path := by
  cases hmessage : mappingAt params "message" with
  | none =>
      left
      rw [foldIntoMessage_of_none hmessage]
      cases path with
      | nil => exact hv
      | cons key path =>
          rw [foldTarget, if_neg (by simp [hmessage])]
          exact hv
  | some message =>
      rw [foldIntoMessage_of_message hmessage]
      have hlookup := lookup_foldl_foldName messageScopedParams (params, message)
      have hunfolded : ¬ Folded params →
          (messageScopedParams.foldl foldName (params, message)).2 = message := by
        intro hnot
        apply foldl_foldName_message
        intro name hname
        by_contra hnone
        rw [not_or, ← ne_eq, Option.ne_none_iff_isSome, Option.not_isSome_iff_eq_none] at hnone
        exact hnot ⟨message, hmessage, name, hname, hnone⟩
      generalize messageScopedParams.foldl foldName (params, message) = moved at hlookup hunfolded ⊢
      have hself := Entries.lookup_setItem_self "message" (.dict moved.2) moved.1
      cases path with
      | nil => exact absurd (.inl ⟨rfl, by simp [Rebuilt, hmessage]⟩) hkept
      | cons key path =>
          by_cases hscoped : key ∈ scopedKeys
          · rw [foldTarget, if_pos ⟨hscoped, by simp [hmessage]⟩, valueAt_cons, hself,
              Option.bind_some]
            cases hinner : Entries.lookup key message with
            | some w =>
                right
                refine ⟨key, path, rfl, hscoped, ?_⟩
                rw [valueAt_below, hmessage, Option.bind_some, valueAt_singleton, hinner]
                rfl
            | none =>
                left
                have hmoved := (hlookup key).2
                rw [hinner, Option.none_or] at hmoved
                rw [← hv]
                exact valueAt_congr (hmoved.trans (if_pos hscoped)) path
          · left
            rw [foldTarget, if_neg fun h => hscoped h.1]
            by_cases hkey : key = .str "message"
            · -- an entry of the message stays in it
              subst hkey
              cases path with
              | nil =>
                  have hwhole := hunfolded fun hfolded => hkept (.inr ⟨rfl, hfolded⟩)
                  rw [valueAt_singleton] at hv
                  rw [valueAt_singleton, hself, hwhole, ← hv]
                  exact (lookup_of_mappingAt hmessage).symm
              | cons inner path =>
                  rw [valueAt_below, hmessage, Option.bind_some, valueAt_cons] at hv
                  rw [valueAt_cons, hself, Option.bind_some, valueAt_cons, (hlookup inner).2]
                  cases hinner : Entries.lookup inner message with
                  | none => simp [hinner] at hv
                  | some w =>
                      rw [hinner] at hv
                      exact hv
            · rw [← hv]
              apply valueAt_congr
              rw [Entries.lookup_setItem_of_ne (Entries.str_eq_false hkey), (hlookup key).1]
              exact if_neg hscoped

/-- Entries of the nested config end up at the top level, everything else where it was. -/
theorem valueAt_flattenPushConfig (hkept : ¬ Consumed .createPushConfig params path)
    (hv : valueAt path (.dict params) = some v) :
    valueAt (flattenTarget path) (.dict (flattenPushConfig params)) = some v ∨
      Overridden .createPushConfig params path := by
  cases path with
  | nil =>
      left
      have hmissing : Entries.lookup (.str nestedPushConfigParam) params = none := by
        rw [← Option.not_isSome_iff_eq_none]
        exact fun hfound => hkept (.inl ⟨rfl, hfound⟩)
      rw [flattenPushConfig_of_missing hmissing]
      exact hv
  | cons key path =>
      by_cases hkey : key = .str nestedPushConfigParam
      · subst hkey
        cases path with
        | nil => exact absurd (.inr rfl) hkept
        | cons inner path =>
            rw [valueAt_below] at hv
            obtain ⟨nested, hnested, hv⟩ := Option.bind_eq_some_iff.mp hv
            rw [flattenTarget, if_pos ⟨rfl, List.cons_ne_nil _ _⟩,
              flattenPushConfig_of_nested hnested]
            have hlookup := lookup_foldl_lift nested
              (Entries.pop (.str nestedPushConfigParam) params) inner
            cases houter : Entries.lookup inner
                (Entries.pop (.str nestedPushConfigParam) params) with
            | none =>
                left
                rw [houter, Option.none_or] at hlookup
                rw [← hv]
                exact valueAt_congr hlookup path
            | some w =>
                right
                have hne : inner ≠ .str nestedPushConfigParam := by
                  rintro rfl
                  rw [Entries.lookup_pop_self] at houter
                  cases houter
                refine ⟨inner, path, rfl, hne, ?_⟩
                rw [valueAt_singleton,
                  ← Entries.lookup_pop_of_ne (Entries.str_eq_false hne), houter]
                rfl
      · left
        rw [flattenTarget, if_neg fun h => hkey h.1, ← hv]
        apply valueAt_congr
        have hpop := Entries.lookup_pop_of_ne (Entries.str_eq_false hkey) params
        cases hnested : mappingAt params nestedPushConfigParam with
        | none => rw [flattenPushConfig_of_none hnested, hpop]
        | some nested =>
            obtain ⟨w, hw⟩ : ∃ w, Entries.lookup key params = some w := by
              rw [valueAt_cons] at hv
              obtain ⟨w, hw, _⟩ := Option.bind_eq_some_iff.mp hv
              exact ⟨w, hw⟩
            rw [flattenPushConfig_of_nested hnested, lookup_foldl_lift, hpop, hw, Option.some_or]

/-- Everything but the flag is where it was. -/
theorem valueAt_dropSelector
    (hkept : ¬ Consumed .getExtendedAgentCard params path)
    (hv : valueAt path (.dict params) = some v) :
    valueAt path (.dict (Entries.pop (.str operationSelectingParam) params)) = some v := by
  cases path with
  | nil =>
      have hmissing : Entries.lookup (.str operationSelectingParam) params = none := by
        rw [← Option.not_isSome_iff_eq_none]
        exact fun hfound => hkept (.inl ⟨rfl, hfound⟩)
      rw [Entries.pop_eq_self hmissing]
      exact hv
  | cons key path =>
      have hkey : key ≠ .str operationSelectingParam := by
        rintro rfl
        exact hkept (.inr rfl)
      rw [← hv]
      exact valueAt_congr (Entries.lookup_pop_of_ne (Entries.str_eq_false hkey) params) path

/-- A value that is not consumed is at its target, or gives way to an explicit one. -/
theorem valueAt_adapt (operation : Operation) (hkept : ¬ Consumed operation params path)
    (hv : valueAt path (.dict params) = some v) :
    valueAt (target operation params path) (.dict (adapt operation params)) = some v ∨
      Overridden operation params path := by
  cases operation with
  | sendMessage => exact valueAt_foldIntoMessage hkept hv
  | sendStreamingMessage => exact valueAt_foldIntoMessage hkept hv
  | createPushConfig => exact valueAt_flattenPushConfig hkept hv
  | getExtendedAgentCard => exact .inl (valueAt_dropSelector hkept hv)
  | _ => exact .inl hv

end Lossless

/-- Adapting changes no object there was. But for a config that nests another one it is
idempotent, and every value that is not consumed is kept at its target, unless an explicit
value is there. -/
theorem adapt_keeps (operation : Operation) (h : Heap) (params : Option ℕ)
    (entries : List (Scalar × Value)) (hparams : HasParams h params entries) :
    (∀ address cell, h.cell? address = some cell →
      (adaptAt operation params h).2.cell? address = some cell) ∧
    (adaptAt operation params h).2.Denotes (.object (adaptAt operation params h).1)
      (.dict (adapt operation entries)) ∧
    ((operation = .createPushConfig →
        valueAt [.str nestedPushConfigParam, .str nestedPushConfigParam] (.dict entries) = none) →
      adapt operation (adapt operation entries) = adapt operation entries) ∧
    ∀ path v, ¬ Consumed operation entries path → valueAt path (.dict entries) = some v →
      valueAt (target operation entries path) (.dict (adapt operation entries)) = some v ∨
        Overridden operation entries path := by
  obtain ⟨hkept, hdenotes⟩ := adaptAt_leaves operation hparams
  exact ⟨hkept, hdenotes, adapt_adapt operation, fun path v => valueAt_adapt operation⟩

/-- Params that name a task beside a message, as objects. -/
def sampleHeap : Heap :=
  ⟨[.dict [(.str "role", .scalar (.str "ROLE_USER"))],
    .dict [(.str "taskId", .scalar (.str "t1")), (.str "message", .object 0)]]⟩

/-- What the sample heap denotes. -/
def sampleParams : List (Scalar × Value) :=
  [(.str "taskId", .str "t1"), (.str "message", .dict [(.str "role", .str "ROLE_USER")])]

/-- The heap holds these params. -/
theorem hasParams_sample : HasParams sampleHeap (some 1) sampleParams := by
  have hmessage : sampleHeap.Denotes (.object 0) (.dict [(.str "role", .str "ROLE_USER")]) :=
    ⟨0, _, rfl, rfl, ⟨rfl, rfl⟩, trivial⟩
  exact ⟨1, _, rfl, rfl, ⟨rfl, rfl⟩, ⟨rfl, hmessage⟩, trivial⟩

theorem sampleHeap_adapt :
    (adaptAt .sendMessage (some 1) sampleHeap).2.Denotes
      (.object (adaptAt .sendMessage (some 1) sampleHeap).1)
      (.dict (adapt .sendMessage sampleParams)) :=
  (adapt_keeps .sendMessage sampleHeap (some 1) sampleParams hasParams_sample).2.1

/-- The flag that selects the extended card is not part of its request. -/
theorem adapt_drops_selector :
    valueAt [.str "extended"] (.dict [(.str "extended", .bool true)]) = some (.bool true) ∧
      ¬ Overridden .getExtendedAgentCard [(.str "extended", .bool true)] [.str "extended"] ∧
      ∀ path, valueAt path
        (.dict (adapt .getExtendedAgentCard [(.str "extended", .bool true)])) ≠
          some (.bool true) := by
  refine ⟨rfl, id, fun path h => ?_⟩
  cases path with
  | nil => cases h
  | cons key path => cases h

end Adaptation

end A2aItk.Acts
