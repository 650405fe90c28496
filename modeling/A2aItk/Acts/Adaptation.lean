import A2aItk.Acts.Exchanges
import A2aItk.Acts.Expectations
import A2aItk.Python.Heap

/-!
# Adapting params to the request message

Values move between the top level of the params and the level below. `adaptAt` works in
place on copies; `adapt` is what comes of it as data.

## Implementation notes

The mapping a path leads through is looked up by `==`. Lists are moved as they are, so a
path does not lead into one.
-/

namespace A2aItk.Acts

open Python

namespace Adaptation

/-- `MESSAGE_SCOPED_PARAMS`. -/
def messageScopedParams : List String := ["taskId", "contextId"]

/-- `NESTED_PUSH_CONFIG_PARAM`. -/
def nestedPushConfigParam : String := "pushNotificationConfig"

/-- `OPERATION_SELECTING_PARAM`. -/
def operationSelectingParam : String := "extended"

section InPlace

variable (params : ℕ) (h : Heap)

/-- `folded.setdefault(name, params.pop(name))`, if the name is in the params. -/
def foldNameAt (folded : ℕ) (h : Heap) (name : String) : Heap :=
  match Entries.lookup (.str name) (h.entriesAt params) with
  | none => h
  | some ref =>
      let popped := h.write params (.dict (Entries.pop (.str name) (h.entriesAt params)))
      popped.write folded
        (.dict (Entries.setDefault (.str name) ref (popped.entriesAt folded)))

/-- `_fold_into_message`. The message is copied before names are folded into it. -/
def foldIntoMessageAt : Heap :=
  match (Entries.lookup (.str "message") (h.entriesAt params)).bind h.dict? with
  | none => h
  | some message =>
      let folded := h.next
      let moved := messageScopedParams.foldl (foldNameAt params folded) (h.alloc (.dict message))
      moved.write params
        (.dict (Entries.setItem (.str "message") (.object folded) (moved.entriesAt params)))

/-- `params.setdefault(key, value)`. -/
def setDefaultAt (h : Heap) (entry : Scalar × Ref) : Heap :=
  h.write params (.dict (Entries.setDefault entry.1 entry.2 (h.entriesAt params)))

/-- `_flatten_push_config`. -/
def flattenPushConfigAt : Heap :=
  let nested := Entries.lookup (.str nestedPushConfigParam) (h.entriesAt params)
  let popped :=
    h.write params (.dict (Entries.pop (.str nestedPushConfigParam) (h.entriesAt params)))
  match nested.bind popped.dict? with
  | none => popped
  | some entries => entries.foldl (setDefaultAt params) popped

/-- `out.pop(OPERATION_SELECTING_PARAM, None)`. -/
def dropSelectorAt : Heap :=
  h.write params (.dict (Entries.pop (.str operationSelectingParam) (h.entriesAt params)))

/-- `adapt`: the address of the new params, and the heap it leaves behind. -/
def adaptAt (operation : Operation) (params : Option ℕ) (h : Heap) : ℕ × Heap :=
  let out := h.next
  let copied := h.alloc (.dict ((params.map h.entriesAt).getD []))
  match operation with
  | .sendMessage | .sendStreamingMessage => (out, foldIntoMessageAt out copied)
  | .createPushConfig => (out, flattenPushConfigAt out copied)
  | .getExtendedAgentCard => (out, dropSelectorAt out copied)
  | _ => (out, copied)

end InPlace

section AsData

variable (params : List (Scalar × Value))

/-- One name moved from the params to the message. -/
def foldName (state : List (Scalar × Value) × List (Scalar × Value)) (name : String) :
    List (Scalar × Value) × List (Scalar × Value) :=
  match Entries.lookup (.str name) state.1 with
  | none => state
  | some v => (Entries.pop (.str name) state.1, Entries.setDefault (.str name) v state.2)

/-- What is bound to a key, if it is a mapping. -/
def mappingAt (key : String) : Option (List (Scalar × Value)) :=
  match Entries.lookup (.str key) params with
  | some (.dict entries) => some entries
  | _ => none

def foldIntoMessage : List (Scalar × Value) :=
  match mappingAt params "message" with
  | none => params
  | some message =>
      let moved := messageScopedParams.foldl foldName (params, message)
      Entries.setItem (.str "message") (.dict moved.2) moved.1

/-- `params.setdefault(key, value)`, for an entry of the nested config. -/
def lift (params : List (Scalar × Value)) (entry : Scalar × Value) : List (Scalar × Value) :=
  Entries.setDefault entry.1 entry.2 params

def flattenPushConfig : List (Scalar × Value) :=
  let popped := Entries.pop (.str nestedPushConfigParam) params
  match mappingAt params nestedPushConfigParam with
  | none => popped
  | some nested => nested.foldl lift popped

/-- The params as the operation's request message. -/
def adapt (operation : Operation) (params : List (Scalar × Value)) : List (Scalar × Value) :=
  match operation with
  | .sendMessage | .sendStreamingMessage => foldIntoMessage params
  | .createPushConfig => flattenPushConfig params
  | .getExtendedAgentCard => Entries.pop (.str operationSelectingParam) params
  | _ => params

end AsData

section Fields

variable {fields : Fields}

theorem lookup_entries (key : String) (fields : Fields) :
    Entries.lookup (.str key) fields.entries = fields.lookup key := by
  induction fields with
  | nil => rfl
  | cons field fields ih =>
      rw [Fields.entries, List.map_cons, Entries.lookup_cons, List.lookup_cons]
      by_cases hkey : field.1 = key
      · simp [hkey, scalar_eq_str_iff]
      · rw [if_neg (by simpa [scalar_eq_str_iff] using hkey), beq_false_of_ne (Ne.symm hkey)]
        exact ih

theorem pop_entries (key : String) (fields : Fields) :
    Entries.pop (.str key) fields.entries = (fields.pop key).entries := by
  rw [Entries.pop, Fields.entries, Fields.pop, Fields.entries, List.filter_map]
  congr 1
  apply List.filter_congr
  intro field _
  rw [Bool.eq_iff_iff]
  simp [scalar_eq_str_iff, ← Bool.not_eq_true]

theorem setDefault_entries (key : String) (v : Value) (fields : Fields) :
    Entries.setDefault (.str key) v fields.entries = (fields.setDefault key v).entries := by
  rw [Entries.setDefault, lookup_entries, Fields.setDefault]
  split
  · rfl
  · simp [Fields.entries]

theorem setItem_entries (key : String) (v : Value) (hdistinct : (fields.map Prod.fst).Nodup) :
    Entries.setItem (.str key) v fields.entries = (fields.set key v).entries := by
  induction fields with
  | nil => rfl
  | cons field fields ih =>
      rw [List.map_cons, List.nodup_cons] at hdistinct
      obtain ⟨name, w⟩ := field
      rw [Fields.entries, List.map_cons, Fields.set, Dict.setEntry]
      by_cases hkey : name = key
      · -- no other field has the key
        rw [if_pos hkey, hkey, Entries.setItem_cons_self (scalar_eq_str_iff.mpr rfl)]
        have hrest : Entries.lookup (.str key) (Fields.entries fields) = none := by
          rw [lookup_entries, List.lookup_eq_none_iff]
          intro other hother
          rw [bne_iff_ne]
          rintro rfl
          exact hdistinct.1 (hkey ▸ List.mem_map.mpr ⟨other, hother, rfl⟩)
        exact congrArg (_ :: ·) (Entries.map_eq_self_of_lookup hrest v)
      · have hne : (Scalar.str name).eq (.str key) = false := by
          rw [Bool.eq_false_iff, ne_eq, scalar_eq_str_iff, Scalar.str.injEq]
          exact hkey
        rw [if_neg hkey, Entries.setItem_cons_of_ne hne]
        exact congrArg (_ :: ·) (ih hdistinct.2)

theorem mappingAt_entries (key : String) (fields : Fields) {nested : List (Scalar × Value)} :
    mappingAt fields.entries key = some nested ↔ fields.lookup key = some (.dict nested) := by
  rw [mappingAt, lookup_entries]
  split
  · rename_i hdict
    rw [hdict, Option.some.injEq, Option.some.injEq, Value.dict.injEq]
  · rename_i hno
    exact iff_of_false (fun h => by cases h) (hno nested)

theorem nodup_pop (hdistinct : (fields.map Prod.fst).Nodup) (key : String) :
    ((fields.pop key).map Prod.fst).Nodup :=
  (List.filter_sublist.map Prod.fst).nodup hdistinct

/-- The names are folded from fields as they are from their entries. -/
theorem foldl_foldName_entries {step : Fields × List (Scalar × Value) → String →
      Fields × List (Scalar × Value)}
    (hnone : ∀ state name, state.1.lookup name = none → step state name = state)
    (hsome : ∀ state name v, state.1.lookup name = some v → step state name =
      (state.1.pop name, Entries.setDefault (.str name) v state.2))
    (names : List String) (state : Fields × List (Scalar × Value)) :
    names.foldl foldName (state.1.entries, state.2) =
      ((names.foldl step state).1.entries, (names.foldl step state).2) ∧
    ((state.1.map Prod.fst).Nodup → ((names.foldl step state).1.map Prod.fst).Nodup) := by
  induction names generalizing state with
  | nil => exact ⟨rfl, id⟩
  | cons name names ih =>
      rw [List.foldl_cons, List.foldl_cons]
      have hlookup := lookup_entries name state.1
      cases hname : state.1.lookup name with
      | none =>
          rw [hnone state name hname]
          have hstay : foldName (state.1.entries, state.2) name = (state.1.entries, state.2) := by
            simp only [foldName, hlookup, hname]
          rw [hstay]
          exact ih state
      | some v =>
          rw [hsome state name v hname]
          have hmove : foldName (state.1.entries, state.2) name =
              ((state.1.pop name).entries, Entries.setDefault (.str name) v state.2) := by
            simp only [foldName, hlookup, hname, pop_entries]
          rw [hmove]
          obtain ⟨hrun, hdistinct⟩ :=
            ih (state.1.pop name, Entries.setDefault (.str name) v state.2)
          exact ⟨hrun, fun h => hdistinct (nodup_pop h name)⟩

theorem setItem_foldl_entries {step : Fields × List (Scalar × Value) → String →
      Fields × List (Scalar × Value)} {names : List String} {message : List (Scalar × Value)}
    (hdistinct : (fields.map Prod.fst).Nodup)
    (hnone : ∀ state name, state.1.lookup name = none → step state name = state)
    (hsome : ∀ state name v, state.1.lookup name = some v → step state name =
      (state.1.pop name, Entries.setDefault (.str name) v state.2)) :
    Entries.setItem (.str "message")
        (.dict (names.foldl foldName (fields.entries, message)).2)
        (names.foldl foldName (fields.entries, message)).1 =
      (Fields.set (names.foldl step (fields, message)).1 "message"
        (.dict (names.foldl step (fields, message)).2)).entries := by
  obtain ⟨hrun, hkeys⟩ := foldl_foldName_entries hnone hsome names (fields, message)
  rw [hrun]
  exact setItem_entries "message" _ (hkeys hdistinct)

theorem foldIntoMessage_entries (hdistinct : (fields.map Prod.fst).Nodup) :
    foldIntoMessage fields.entries = (Acts.foldIntoMessage fields).entries := by
  unfold Acts.foldIntoMessage
  split
  · rename_i message hmessage
    rw [foldIntoMessage, (mappingAt_entries "message" fields).mpr hmessage]
    apply setItem_foldl_entries hdistinct
    · intro state name h
      simp only [foldIntoMessage.Fields.lookup, h]
    · intro state name v h
      simp only [foldIntoMessage.Fields.lookup, h]
      rfl
  · rename_i hno
    have hnone : mappingAt fields.entries "message" = none := by
      rw [Option.eq_none_iff_forall_ne_some]
      intro nested hnested
      exact hno nested ((mappingAt_entries "message" fields).mp hnested)
    rw [foldIntoMessage, hnone]

/-- Loops that do the same to fields and to their entries. -/
theorem foldl_lift_entries {step : Fields → Scalar × Value → Fields}
    {nested : List (Scalar × Value)} (fields : Fields)
    (hstep : ∀ fields, ∀ entry ∈ nested, lift (Fields.entries fields) entry =
      (step fields entry).entries) :
    nested.foldl lift fields.entries = (nested.foldl step fields).entries := by
  induction nested generalizing fields with
  | nil => rfl
  | cons entry nested ih =>
      rw [List.foldl_cons, List.foldl_cons, hstep fields entry List.mem_cons_self]
      exact ih _ fun fields entry hentry => hstep fields entry (List.mem_cons_of_mem _ hentry)

theorem flattenPushConfig_entries
    (htext : ∀ nested, fields.lookup nestedPushConfigParam = some (.dict nested) →
      ∀ entry ∈ nested, ∃ key, entry.1 = .str key) :
    flattenPushConfig fields.entries = (Acts.flattenPushConfig fields).entries := by
  unfold Acts.flattenPushConfig
  split
  · rename_i nested hnested
    rw [flattenPushConfig, (mappingAt_entries nestedPushConfigParam fields).mpr hnested]
    simp only [pop_entries]
    apply foldl_lift_entries
    intro fields entry hentry
    obtain ⟨key, hkey⟩ := htext nested hnested entry hentry
    obtain ⟨_, v⟩ := entry
    obtain rfl : _ = Scalar.str key := hkey
    exact setDefault_entries key v fields
  · rename_i hno
    have hnone : mappingAt fields.entries nestedPushConfigParam = none := by
      rw [Option.eq_none_iff_forall_ne_some]
      intro nested hnested
      exact hno nested ((mappingAt_entries nestedPushConfigParam fields).mp hnested)
    rw [flattenPushConfig, hnone]
    exact pop_entries _ _

/-- For fields, whose names are text and distinct, this is what the runner's model does. -/
theorem adapt_entries (operation : Operation) (hdistinct : (fields.map Prod.fst).Nodup)
    (htext : ∀ nested, fields.lookup nestedPushConfigParam = some (.dict nested) →
      ∀ entry ∈ nested, ∃ key, entry.1 = .str key) :
    adapt operation fields.entries = (Acts.adapt operation fields).entries := by
  cases operation with
  | sendMessage => exact foldIntoMessage_entries hdistinct
  | sendStreamingMessage => exact foldIntoMessage_entries hdistinct
  | createPushConfig => exact flattenPushConfig_entries htext
  | getExtendedAgentCard => exact pop_entries _ _
  | _ => rfl

end Fields
section Refinement

open Heap

variable {h₀ h : Heap} {params folded : ℕ} {entries message : List (Scalar × Value)}

/-- Neither dictionary of the loop is an old object, and they hold what the loop over the
data has come to. -/
structure Folding (h₀ : Heap) (params folded : ℕ)
    (state : List (Scalar × Value) × List (Scalar × Value)) (h : Heap) : Prop where
  kept : h₀.Extends h
  holdsParams : Holds h₀ h params state.1
  holdsMessage : Holds h₀ h folded state.2

theorem Folding.step (hparams : h₀.next ≤ params) (hfolded : h₀.next ≤ folded)
    (hne : params ≠ folded) {state : List (Scalar × Value) × List (Scalar × Value)}
    (hstate : Folding h₀ params folded state h) (name : String) :
    Folding h₀ params folded (foldName state name) (foldNameAt params folded h name) := by
  have hrel := hstate.holdsParams.related
  rcases hrel.lookup (.str name) with ⟨hat, hdata⟩ | ⟨ref, v, hat, hdata, hv⟩
  · rw [foldNameAt, foldName, hat, hdata]
    exact hstate
  · simp only [foldNameAt, foldName, hat, hdata]
    have hpopped := hstate.holdsParams.write (hrel.pop (.str name))
    have hmessage := hstate.holdsMessage.write_of_ne hne.symm
      (.dict (Entries.pop (.str name) (h.entriesAt params)))
    exact ⟨(hstate.kept.write hparams _).write hfolded _, hpopped.write_of_ne hne _,
      hmessage.write (hmessage.related.setDefault (.str name) hv)⟩

theorem Folding.run (hparams : h₀.next ≤ params) (hfolded : h₀.next ≤ folded)
    (hne : params ≠ folded) {state : List (Scalar × Value) × List (Scalar × Value)}
    (hstate : Folding h₀ params folded state h) (names : List String) :
    Folding h₀ params folded (names.foldl foldName state)
      (names.foldl (foldNameAt params folded) h) := by
  induction names generalizing state h with
  | nil => exact hstate
  | cons name names ih => exact ih (hstate.step hparams hfolded hne name)

/-- What a run leaves behind: the old objects as they were, and new params. -/
def Leaves (h₀ h : Heap) (params : ℕ) (entries : List (Scalar × Value)) : Prop :=
  h₀.Extends h ∧ h.Denotes (.object params) (.dict entries)

/-- A key is bound to a dictionary just where the data has a mapping there. -/
theorem dict?_lookup (hext : h₀.Extends h) {refs : List (Scalar × Ref)}
    (hrel : Entries.Related h₀.Denotes refs entries) (key : String) :
    ((Entries.lookup (.str key) refs).bind h.dict? = none ∧ mappingAt entries key = none) ∨
      ∃ nested nested', (Entries.lookup (.str key) refs).bind h.dict? = some nested ∧
        mappingAt entries key = some nested' ∧ Entries.Related h₀.Denotes nested nested' := by
  unfold mappingAt
  rcases hrel.lookup (.str key) with ⟨hat, hdata⟩ | ⟨ref, v, hat, hdata, hv⟩
  · exact .inl ⟨by rw [hat]; rfl, by rw [hdata]⟩
  · rw [hat, hdata, Option.bind_some]
    cases v with
    | scalar s => exact .inl ⟨dict?_eq_none_of_denotes (hv.mono hext) rfl, rfl⟩
    | list items => exact .inl ⟨dict?_eq_none_of_denotes (hv.mono hext) rfl, rfl⟩
    | dict nested' =>
        obtain ⟨address, nested, rfl, hcell, hnested⟩ := hv
        exact .inr ⟨nested, nested', dict?_object_eq_some_iff.mpr (hext address _ hcell), rfl,
          denotesEntries_iff.mp hnested⟩

theorem foldIntoMessageAt_leaves (hext : h₀.Extends h) (hparams : h₀.next ≤ params)
    (hholds : Holds h₀ h params entries) :
    Leaves h₀ (foldIntoMessageAt params h) params (foldIntoMessage entries) := by
  rcases dict?_lookup hext hholds.related "message" with ⟨hat, hdata⟩ |
    ⟨message, message', hat, hdata, hmessage⟩
  · rw [foldIntoMessageAt, foldIntoMessage, hat, hdata]
    exact ⟨hext, hholds.denotes hext⟩
  · simp only [foldIntoMessageAt, foldIntoMessage, hat, hdata]
    have hlt := hholds.lt_next
    have hne : params ≠ h.next := by omega
    have hstart : Folding h₀ params h.next (entries, message') (h.alloc (.dict message)) :=
      ⟨hext.alloc _, hholds.alloc _, message, cell?_alloc_self _, hmessage⟩
    have hrun := hstart.run hparams (hparams.trans hlt.le) hne messageScopedParams
    have hmoved := hrun.holdsParams.related
    generalize messageScopedParams.foldl (foldNameAt params h.next) (h.alloc (.dict message))
      = moved at hrun hmoved ⊢
    generalize messageScopedParams.foldl foldName (entries, message') = state at hrun hmoved ⊢
    have hkept := hrun.kept.write hparams
      (.dict (Entries.setItem (.str "message") (.object h.next) (moved.entriesAt params)))
    -- the folded message is a new object, so the params denote the data only in the last heap
    have hfolded := (hrun.holdsMessage.write_of_ne hne.symm
      (.dict (Entries.setItem (.str "message") (.object h.next) (moved.entriesAt params)))).denotes
        hkept
    refine ⟨hkept, denotes_dict_iff.mpr ⟨_, dict?_object_eq_some_iff.mpr
      (cell?_write_self hrun.holdsParams.lt_next _), ?_⟩⟩
    exact (hmoved.mono fun _ _ hv => hv.mono hkept).setItem (.str "message") hfolded

theorem setDefaultAt_run {nested : List (Scalar × Ref)} {nested' : List (Scalar × Value)}
    (hext : h₀.Extends h) (hparams : h₀.next ≤ params) (hholds : Holds h₀ h params entries)
    (hnested : Entries.Related h₀.Denotes nested nested') :
    h₀.Extends (nested.foldl (setDefaultAt params) h) ∧
      Holds h₀ (nested.foldl (setDefaultAt params) h) params (nested'.foldl lift entries) := by
  induction hnested generalizing h entries with
  | nil => exact ⟨hext, hholds⟩
  | @cons entry entry' nested nested' hentry _ ih =>
      apply ih (hext.write hparams _)
      rw [lift, ← hentry.1]
      exact hholds.write (hholds.related.setDefault entry.1 hentry.2)

theorem flattenPushConfigAt_leaves (hext : h₀.Extends h) (hparams : h₀.next ≤ params)
    (hholds : Holds h₀ h params entries) :
    Leaves h₀ (flattenPushConfigAt params h) params (flattenPushConfig entries) := by
  have hpopped := hholds.write (hholds.related.pop (.str nestedPushConfigParam))
  have hkept := hext.write hparams
    (.dict (Entries.pop (.str nestedPushConfigParam) (h.entriesAt params)))
  rcases dict?_lookup hkept hholds.related nestedPushConfigParam with ⟨hat, hdata⟩ |
    ⟨nested, nested', hat, hdata, hnested⟩
  · simp only [flattenPushConfigAt, flattenPushConfig, hat, hdata]
    exact ⟨hkept, hpopped.denotes hkept⟩
  · simp only [flattenPushConfigAt, flattenPushConfig, hat, hdata]
    obtain ⟨hlast, hlifted⟩ := setDefaultAt_run hkept hparams hpopped hnested
    exact ⟨hlast, hlifted.denotes hlast⟩

theorem dropSelectorAt_leaves (hext : h₀.Extends h) (hparams : h₀.next ≤ params)
    (hholds : Holds h₀ h params entries) :
    Leaves h₀ (dropSelectorAt params h) params
      (Entries.pop (.str operationSelectingParam) entries) := by
  have hkept := hext.write hparams
    (.dict (Entries.pop (.str operationSelectingParam) (h.entriesAt params)))
  exact ⟨hkept,
    (hholds.write (hholds.related.pop (.str operationSelectingParam))).denotes hkept⟩

/-- The params a call is made with: none, or a mapping that the heap holds. -/
def HasParams (h : Heap) (params : Option ℕ) (entries : List (Scalar × Value)) : Prop :=
  match params with
  | none => entries = []
  | some address => h.Denotes (.object address) (.dict entries)

theorem HasParams.holds_copy {params : Option ℕ} (hparams : HasParams h params entries) :
    Holds h (h.alloc (.dict ((params.map h.entriesAt).getD []))) h.next entries := by
  refine ⟨_, cell?_alloc_self _, ?_⟩
  cases params with
  | none =>
      obtain rfl : entries = [] := hparams
      exact .nil
  | some address =>
      obtain ⟨refs, hdict, hrel⟩ := denotes_dict_iff.mp hparams
      rw [Option.map_some, Option.getD_some, entriesAt, hdict]
      exact hrel

/-- Adapting in place makes new params that denote the adapted data, and changes no object
there was. -/
theorem adaptAt_leaves (operation : Operation) {params : Option ℕ}
    (hparams : HasParams h params entries) :
    Leaves h (adaptAt operation params h).2 (adaptAt operation params h).1
      (adapt operation entries) := by
  have hcopy := hparams.holds_copy
  have hkept := (Extends.refl h).alloc (.dict ((params.map h.entriesAt).getD []))
  cases operation with
  | sendMessage => exact foldIntoMessageAt_leaves hkept le_rfl hcopy
  | sendStreamingMessage => exact foldIntoMessageAt_leaves hkept le_rfl hcopy
  | createPushConfig => exact flattenPushConfigAt_leaves hkept le_rfl hcopy
  | getExtendedAgentCard => exact dropSelectorAt_leaves hkept le_rfl hcopy
  | _ => exact ⟨hkept, hcopy.denotes hkept⟩

end Refinement

end Adaptation

end A2aItk.Acts
