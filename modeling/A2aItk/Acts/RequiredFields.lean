import A2aItk.Python.Entries
import A2aItk.Python.Objects

/-!
# Required fields of a gRPC response

A message is rendered twice, without its defaults and with every field that has no
presence. The required fields of the second rendering are put back into the first.

## Implementation notes

Descriptors come from a pool by full name, so a message type may contain itself. A
recursion of the source goes one level down the leaner rendering; its depth is the fuel.
-/

namespace A2aItk.Python

namespace Value

mutual

/-- How deep the lists and mappings of a value are nested. -/
def depth : Value → ℕ
  | .scalar _ => 0
  | .list items => depthItems items + 1
  | .dict entries => depthEntries entries + 1

/-- The depth of the deepest item. -/
def depthItems : List Value → ℕ
  | [] => 0
  | v :: rest => max (depth v) (depthItems rest)

/-- The depth of the deepest entry. -/
def depthEntries : List (Scalar × Value) → ℕ
  | [] => 0
  | (_, v) :: rest => max (depth v) (depthEntries rest)

end

theorem depth_le_of_mem {items : List Value} {v : Value} (h : v ∈ items) :
    v.depth ≤ depthItems items := by
  induction items with
  | nil => cases h
  | cons w rest ih =>
      rw [depthItems, le_max_iff]
      rcases List.mem_cons.mp h with rfl | h
      · exact .inl le_rfl
      · exact .inr (ih h)

theorem depth_lt_of_lookup {entries : List (Scalar × Value)} {key : Scalar} {v : Value}
    (h : Entries.lookup key entries = some v) : v.depth < (Value.dict entries).depth := by
  rw [depth, Nat.lt_succ_iff]
  induction entries with
  | nil => cases h
  | cons entry rest ih =>
      obtain ⟨key', w⟩ := entry
      rw [Entries.lookup_cons] at h
      rw [depthEntries, le_max_iff]
      split at h
      · exact .inl (Option.some.inj h ▸ le_rfl)
      · exact .inr (ih h)

end Value

end A2aItk.Python

namespace A2aItk.Acts

open Python

namespace RequiredFields

/-- What `_restore_required` reads of a field. The message type is that of a field of
`TYPE_MESSAGE`, by full name. -/
structure FieldDescriptor where
  jsonName : String
  required : Bool := false
  hasPresence : Bool := false
  isRepeated : Bool := false
  messageType : Option String := none
  deriving DecidableEq

/-- What it reads of a message type. -/
structure MessageDescriptor where
  fullName : String
  mapEntry : Bool := false
  fields : List FieldDescriptor

namespace FieldDescriptor

/-- The key of the field in a rendering. -/
def key (field : FieldDescriptor) : Scalar := .str field.jsonName

end FieldDescriptor

namespace MessageDescriptor

/-- Maps and well-known types have JSON shapes of their own. -/
def ownShape (descriptor : MessageDescriptor) : Bool :=
  descriptor.mapEntry || "google.protobuf.".toList.isPrefixOf descriptor.fullName.toList

end MessageDescriptor

section Restore

variable (pool : String → MessageDescriptor)
  (walk : MessageDescriptor → Value → Value → Except PyError Value)

/-- A repeated field: the items of both renderings are walked side by side, as far as there
are items in both. -/
def restoreItems (nested : MessageDescriptor) (value : Value) (other : Option Value) :
    Except PyError Value := do
  let items ← value.iterate
  let others ← Value.iterateOr other
  let walked ← (items.zip others).mapM fun pair => walk nested pair.1 pair.2
  match value with
  | .list items => pure (.list (walked ++ items.drop walked.length))
  | value => pure value

/-- What becomes of `lean[key]`, from `lean.get(key)` and `full.get(key)`. -/
def restoreValue (field : FieldDescriptor) (leanValue fullValue : Option Value) :
    Except PyError (Option Value) :=
  match leanValue with
  | none => pure (if field.required then fullValue else none)
  | some value =>
      match field.messageType with
      | none => pure (some value)
      | some name =>
          if (pool name).ownShape then pure (some value)
          else if field.isRepeated then some <$> restoreItems walk (pool name) value fullValue
          else some <$> walk (pool name) value (fullValue.getD .null)

/-- One turn of the loop over the fields. -/
def restoreField (full lean : List (Scalar × Value)) (field : FieldDescriptor) :
    Except PyError (List (Scalar × Value)) := do
  match ← restoreValue pool walk field (Entries.lookup field.key lean)
      (Entries.lookup field.key full) with
  | none => pure lean
  | some value => pure (Entries.setItem field.key value lean)

/-- `_restore_required`, down to a depth. -/
def restoreRequired : ℕ → MessageDescriptor → Value → Value → Except PyError Value
  | fuel + 1, descriptor, .dict lean, .dict full =>
      Value.dict <$> descriptor.fields.foldlM
        (restoreField pool (restoreRequired fuel) full) lean
  | _, _, lean, _ => pure lean

/-- `_to_dict`, from the two renderings. -/
def toDict (descriptor : MessageDescriptor) (lean full : Value) : Except PyError Value :=
  restoreRequired pool lean.depth descriptor lean full

end Restore

section Positions

/-- One step down a rendering: into a field, an item of a repeated field, or the value of a
map at a key. -/
inductive Step
  | field (name : String)
  | item (name : String) (i : ℕ)
  | value (name key : String)
  deriving DecidableEq

namespace Step

/-- What a step leads to. -/
def read (v : Value) : Step → Option Value
  | field name => v.get? (.str name)
  | item name i => ((v.get? (.str name)).bind Value.array?).bind fun items => items[i]?
  | value name key => (v.get? (.str name)).bind fun entries => entries.get? (.str key)

/-- Steps that do not lead into a map. -/
def outsideMaps : Step → Bool
  | value _ _ => false
  | _ => true

end Step

/-- What a path leads to. -/
def valueAt : List Step → Value → Option Value
  | [], v => some v
  | step :: path, v => (step.read v).bind (valueAt path)

end Positions

section Rendering

variable {μ : Type} (pool : String → MessageDescriptor)

/-- Messages, and their two renderings: `MessageToDict(m)` and
`MessageToDict(m, always_print_fields_with_no_presence=True)`. -/
structure Library (μ : Type) where
  descriptor : μ → MessageDescriptor
  /-- Whether a field is set, or not at its default. -/
  isSet : μ → FieldDescriptor → Bool
  /-- The message a singular field holds. -/
  submessage : μ → FieldDescriptor → μ
  /-- The messages a repeated field holds. -/
  items : μ → FieldDescriptor → List μ
  /-- The messages a map holds. -/
  values : μ → FieldDescriptor → List (String × μ)
  lean : μ → List (Scalar × Value)
  full : μ → List (Scalar × Value)

/-- The message type of a field that the descriptor describes the shape of. -/
def Described (field : FieldDescriptor) (name : String) : Prop :=
  field.messageType = some name ∧ (pool name).ownShape = false

/-- The message type of the values of a map. -/
def mapValueType (field : FieldDescriptor) : Option String :=
  field.messageType.bind fun name =>
    if (pool name).mapEntry then
      ((pool name).fields.find? fun inner => inner.jsonName = "value").bind
        FieldDescriptor.messageType
    else none

/-- What is documented of the renderings: the lean one has the fields that are set, the full
one also those without presence, and messages are rendered below their field, one for one. -/
structure Library.Lawful (lib : Library μ) : Prop where
  distinct : ∀ m, ((lib.descriptor m).fields.map FieldDescriptor.jsonName).Nodup
  lean_has : ∀ m, ∀ field ∈ (lib.descriptor m).fields,
    (Entries.lookup field.key (lib.lean m)).isSome = lib.isSet m field
  lean_only : ∀ m key, (∀ field ∈ (lib.descriptor m).fields, field.key ≠ key) →
    Entries.lookup key (lib.lean m) = none
  full_has : ∀ m, ∀ field ∈ (lib.descriptor m).fields,
    (Entries.lookup field.key (lib.full m)).isSome = (lib.isSet m field || !field.hasPresence)
  singular : ∀ m, ∀ field ∈ (lib.descriptor m).fields, ∀ name, Described pool field name →
    field.isRepeated = false → lib.isSet m field = true →
      lib.descriptor (lib.submessage m field) = pool name ∧
      Entries.lookup field.key (lib.lean m) =
        some (.dict (lib.lean (lib.submessage m field))) ∧
      Entries.lookup field.key (lib.full m) =
        some (.dict (lib.full (lib.submessage m field)))
  repeated : ∀ m, ∀ field ∈ (lib.descriptor m).fields, ∀ name, Described pool field name →
    field.isRepeated = true → lib.isSet m field = true →
      (∀ item ∈ lib.items m field, lib.descriptor item = pool name) ∧
      Entries.lookup field.key (lib.lean m) =
        some (.list ((lib.items m field).map fun item => .dict (lib.lean item))) ∧
      Entries.lookup field.key (lib.full m) =
        some (.list ((lib.items m field).map fun item => .dict (lib.full item)))
  map : ∀ m, ∀ field ∈ (lib.descriptor m).fields, ∀ name, mapValueType pool field = some name →
    lib.isSet m field = true →
      (∀ entry ∈ lib.values m field, lib.descriptor entry.2 = pool name) ∧
      Entries.lookup field.key (lib.lean m) =
        some (.dict ((lib.values m field).map fun entry =>
          (.str entry.1, .dict (lib.lean entry.2)))) ∧
      Entries.lookup field.key (lib.full m) =
        some (.dict ((lib.values m field).map fun entry =>
          (.str entry.1, .dict (lib.full entry.2))))

/-- The submessages of a message that are present, by where they are rendered. -/
inductive Library.Reaches (lib : Library μ) : μ → List Step → μ → Prop
  | self (m : μ) : Reaches lib m [] m
  | singular {m m' : μ} {path : List Step} {field : FieldDescriptor} {name : String}
      (hfield : field ∈ (lib.descriptor m).fields) (hname : Described pool field name)
      (hsingular : field.isRepeated = false) (hset : lib.isSet m field = true)
      (hrest : Reaches lib (lib.submessage m field) path m') :
      Reaches lib m (.field field.jsonName :: path) m'
  | repeated {m item m' : μ} {path : List Step} {field : FieldDescriptor} {name : String}
      {i : ℕ} (hfield : field ∈ (lib.descriptor m).fields) (hname : Described pool field name)
      (hrepeated : field.isRepeated = true) (hset : lib.isSet m field = true)
      (hitem : (lib.items m field)[i]? = some item) (hrest : Reaches lib item path m') :
      Reaches lib m (.item field.jsonName i :: path) m'
  | map {m value m' : μ} {path : List Step} {field : FieldDescriptor} {name key : String}
      (hfield : field ∈ (lib.descriptor m).fields) (hname : mapValueType pool field = some name)
      (hset : lib.isSet m field = true) (hvalue : (key, value) ∈ lib.values m field)
      (hrest : Reaches lib value path m') :
      Reaches lib m (.value field.jsonName key :: path) m'

/-- The entries are the lean rendering with the required fields put back that have no
presence. What the descriptor does not describe the shape of, and every field that holds no
message, is as in the lean rendering. -/
structure Library.RestoredAt (lib : Library μ) (m : μ) (entries : List (Scalar × Value)) :
    Prop where
  has_iff : ∀ field ∈ (lib.descriptor m).fields,
    (Entries.lookup field.key entries).isSome = true ↔
      (Entries.lookup field.key (lib.lean m)).isSome = true ∨
        field.required = true ∧ field.hasPresence = false
  kept : ∀ field ∈ (lib.descriptor m).fields, (∀ name, ¬ Described pool field name) →
    (Entries.lookup field.key (lib.lean m)).isSome = true →
      Entries.lookup field.key entries = Entries.lookup field.key (lib.lean m)
  restored : ∀ field ∈ (lib.descriptor m).fields,
    Entries.lookup field.key (lib.lean m) = none → field.required = true →
      Entries.lookup field.key entries = Entries.lookup field.key (lib.full m)
  items : ∀ field ∈ (lib.descriptor m).fields, ∀ name, Described pool field name →
    field.isRepeated = true → lib.isSet m field = true →
      ∃ values, Entries.lookup field.key entries = some (.list values) ∧
        values.length = (lib.items m field).length
  only : ∀ key, (∀ field ∈ (lib.descriptor m).fields, field.key ≠ key) →
    Entries.lookup key entries = none

/-- At every submessage the path leads to, the required fields are restored. -/
def Library.RestoredBelow (lib : Library μ) (paths : List Step → Prop) (m : μ)
    (entries : List (Scalar × Value)) : Prop :=
  ∀ path m', lib.Reaches pool m path m' → paths path →
    ∃ entries', valueAt path (.dict entries) = some (.dict entries') ∧
      lib.RestoredAt pool m' entries'

end Rendering

section Loop

variable {pool : String → MessageDescriptor}
  {walk : MessageDescriptor → Value → Value → Except PyError Value}
  {full lean : List (Scalar × Value)}

theorem restoreField_eq_ok {field : FieldDescriptor} {value : Option Value}
    (hvalue : restoreValue pool walk field (Entries.lookup field.key lean)
      (Entries.lookup field.key full) = .ok value)
    (hnone : value = none → Entries.lookup field.key lean = none) :
    ∃ out, restoreField pool walk full lean field = .ok out ∧
      Entries.lookup field.key out = value ∧
      ∀ key, field.key ≠ key → Entries.lookup key out = Entries.lookup key lean := by
  rw [restoreField, hvalue, ok_bind]
  cases value with
  | none => exact ⟨lean, rfl, hnone rfl, fun _ _ => rfl⟩
  | some v =>
      refine ⟨_, rfl, Entries.lookup_setItem_self field.jsonName v lean, fun key hkey => ?_⟩
      exact Entries.lookup_setItem_of_ne (Entries.str_eq_false (Ne.symm hkey)) v lean

/-- Each turn of the loop is about its own field, so what becomes of a field is read off the
lean rendering. -/
theorem foldlM_restoreField {fields : List FieldDescriptor}
    (hdistinct : (fields.map FieldDescriptor.jsonName).Nodup)
    {values : FieldDescriptor → Option Value}
    (hvalues : ∀ field ∈ fields, restoreValue pool walk field (Entries.lookup field.key lean)
      (Entries.lookup field.key full) = .ok (values field))
    (hnone : ∀ field ∈ fields, values field = none → Entries.lookup field.key lean = none) :
    ∃ out, fields.foldlM (restoreField pool walk full) lean = .ok out ∧
      (∀ field ∈ fields, Entries.lookup field.key out = values field) ∧
      ∀ key, (∀ field ∈ fields, field.key ≠ key) →
        Entries.lookup key out = Entries.lookup key lean := by
  induction fields generalizing lean with
  | nil => exact ⟨lean, rfl, by simp, fun _ _ => rfl⟩
  | cons field rest ih =>
      rw [List.map_cons, List.nodup_cons] at hdistinct
      rw [List.forall_mem_cons] at hvalues hnone
      obtain ⟨next, hnext, hself, hother⟩ := restoreField_eq_ok hvalues.1 hnone.1
      have hkeep : ∀ other ∈ rest,
          Entries.lookup other.key next = Entries.lookup other.key lean := by
        intro other hmem
        apply hother
        intro hkey
        apply hdistinct.1
        rw [Scalar.str.inj hkey]
        exact List.mem_map_of_mem hmem
      obtain ⟨out, hout, hrest, hrest'⟩ := @ih next hdistinct.2
        (fun other hmem => hkeep other hmem ▸ hvalues.2 other hmem)
        (fun other hmem h => (hkeep other hmem).trans (hnone.2 other hmem h))
      refine ⟨out, ?_, ?_, ?_⟩
      · rw [List.foldlM_cons, hnext]
        exact hout
      · rw [List.forall_mem_cons]
        refine ⟨?_, hrest⟩
        rw [hrest' field.key ?_, hself]
        intro other hmem hkey
        apply hdistinct.1
        rw [← Scalar.str.inj hkey]
        exact List.mem_map_of_mem hmem
      · intro key hkey
        rw [List.forall_mem_cons] at hkey
        rw [hrest' key hkey.2, hother key hkey.1]

end Loop

section Run

variable {μ : Type} {pool : String → MessageDescriptor} {lib : Library μ}
  {walk : MessageDescriptor → Value → Value → Except PyError Value}

/-- Walking the renderings of a message restores its required fields, outside of maps. -/
def Restores (lib : Library μ) (pool : String → MessageDescriptor)
    (walk : MessageDescriptor → Value → Value → Except PyError Value) (m : μ) : Prop :=
  ∃ entries, walk (lib.descriptor m) (.dict (lib.lean m)) (.dict (lib.full m)) =
      .ok (.dict entries) ∧
    lib.RestoredBelow pool (fun path => ∀ step ∈ path, step.outsideMaps = true) m entries

/-- What becomes of one field. -/
structure FieldRestored (lib : Library μ) (pool : String → MessageDescriptor) (m : μ)
    (field : FieldDescriptor) (value : Option Value) : Prop where
  has_iff : value.isSome = true ↔ (Entries.lookup field.key (lib.lean m)).isSome = true ∨
    field.required = true ∧ field.hasPresence = false
  kept : (∀ name, ¬ Described pool field name) →
    (Entries.lookup field.key (lib.lean m)).isSome = true →
      value = Entries.lookup field.key (lib.lean m)
  restored : Entries.lookup field.key (lib.lean m) = none → field.required = true →
    value = Entries.lookup field.key (lib.full m)
  singular : ∀ name, Described pool field name → field.isRepeated = false →
    lib.isSet m field = true → ∃ entries, value = some (.dict entries) ∧
      lib.RestoredBelow pool (fun path => ∀ step ∈ path, step.outsideMaps = true)
        (lib.submessage m field) entries
  repeated : ∀ name, Described pool field name → field.isRepeated = true →
    lib.isSet m field = true → ∃ values, value = some (.list values) ∧
      List.Forall₂ (fun item v => ∃ entries, v = .dict entries ∧
        lib.RestoredBelow pool (fun path => ∀ step ∈ path, step.outsideMaps = true)
          item entries) (lib.items m field) values

/-- Related lists have related items at every index. -/
theorem exists_getElem?_of_forall₂ {α β : Type*} {R : α → β → Prop} {l : List α} {r : List β}
    (h : List.Forall₂ R l r) {i : ℕ} {a : α} (ha : l[i]? = some a) :
    ∃ b, r[i]? = some b ∧ R a b := by
  induction h generalizing i with
  | nil => simp at ha
  | cons hhead _ ih =>
      cases i with
      | zero =>
          obtain rfl := Option.some.inj ha
          exact ⟨_, rfl, hhead⟩
      | succ i => exact ih ha

theorem iterateOr_list (items : List Value) :
    Value.iterateOr (some (.list items)) = .ok items := by
  cases items with
  | nil => rfl
  | cons item rest => rfl

theorem mapM_walk_items {nested : MessageDescriptor} {items : List μ}
    (hnested : ∀ item ∈ items, lib.descriptor item = nested)
    (hwalk : ∀ item ∈ items, Restores lib pool walk item) :
    ∃ values, (((items.map fun item => Value.dict (lib.lean item)).zip
        (items.map fun item => Value.dict (lib.full item))).mapM
          fun pair => walk nested pair.1 pair.2) = .ok values ∧
      List.Forall₂ (fun item v => ∃ entries, v = .dict entries ∧
        lib.RestoredBelow pool (fun path => ∀ step ∈ path, step.outsideMaps = true)
          item entries) items values := by
  induction items with
  | nil => exact ⟨[], rfl, .nil⟩
  | cons item rest ih =>
      rw [List.forall_mem_cons] at hnested hwalk
      obtain ⟨entries, hentries, hbelow⟩ := hwalk.1
      obtain ⟨values, hvalues, hrest⟩ := ih hnested.2 hwalk.2
      rw [hnested.1] at hentries
      refine ⟨.dict entries :: values, ?_, .cons ⟨entries, rfl, hbelow⟩ hrest⟩
      rw [List.map_cons, List.map_cons, List.zip_cons_cons, List.mapM_cons, hentries, ok_bind,
        hvalues]
      rfl

/-- A field that is not walked stays as it is. -/
theorem FieldRestored.of_kept {m : μ} {field : FieldDescriptor} {v : Value}
    (hlookup : Entries.lookup field.key (lib.lean m) = some v)
    (hno : ∀ name, ¬ Described pool field name) :
    FieldRestored lib pool m field (some v) where
  has_iff := by simp [hlookup]
  kept _ _ := hlookup.symm
  restored h _ := by
    rw [hlookup] at h
    cases h
  singular name hname := absurd hname (hno name)
  repeated name hname := absurd hname (hno name)

/-- A field the lean rendering leaves out is back if it is required and has no presence. -/
theorem FieldRestored.of_missing (hlib : lib.Lawful pool) {m : μ} {field : FieldDescriptor}
    (hfield : field ∈ (lib.descriptor m).fields)
    (hlookup : Entries.lookup field.key (lib.lean m) = none) :
    FieldRestored lib pool m field
      (if field.required then Entries.lookup field.key (lib.full m) else none) := by
  have hset := hlib.lean_has m field hfield
  have hfull := hlib.full_has m field hfield
  rw [hlookup, Option.isSome_none] at hset
  rw [← hset, Bool.false_or] at hfull
  refine ⟨?_, ?_, ?_, ?_, ?_⟩
  · rw [hlookup]
    cases hrequired : field.required with
    | false => simp
    | true => simp [hfull]
  · intro _ h
    rw [hlookup] at h
    cases h
  · intro _ hrequired
    rw [if_pos hrequired]
  · intro _ _ _ h
    rw [← hset] at h
    cases h
  · intro _ _ _ h
    rw [← hset] at h
    cases h

section Branches

variable {field : FieldDescriptor} {v : Value} {other : Option Value} {name : String}

theorem restoreValue_of_plain (h : ∀ name, ¬ Described pool field name) :
    restoreValue pool walk field (some v) other = .ok (some v) := by
  unfold restoreValue
  cases htype : field.messageType with
  | none => rfl
  | some name =>
      have hshape : (pool name).ownShape = true := by
        by_contra hno
        exact h name ⟨htype, Bool.eq_false_iff.mpr hno⟩
      simp only [hshape, if_true]
      rfl

theorem restoreValue_of_singular (hname : Described pool field name)
    (hsingular : field.isRepeated = false) :
    restoreValue pool walk field (some v) other =
      some <$> walk (pool name) v (other.getD .null) := by
  simp only [restoreValue, hname.1, hname.2, hsingular, Bool.false_eq_true, if_false]

theorem restoreValue_of_repeated (hname : Described pool field name)
    (hrepeated : field.isRepeated = true) :
    restoreValue pool walk field (some v) other =
      some <$> restoreItems walk (pool name) v other := by
  simp only [restoreValue, hname.1, hname.2, hrepeated, Bool.false_eq_true, if_false, if_true]

end Branches

/-- A list in both renderings of which all pairs of items are walked. -/
theorem restoreItems_of_mapM {nested : MessageDescriptor} {items others values : List Value}
    (hlength : values.length = items.length)
    (h : ((items.zip others).mapM fun pair => walk nested pair.1 pair.2) = .ok values) :
    restoreItems walk nested (.list items) (some (.list others)) = .ok (.list values) := by
  rw [restoreItems, iterateOr_list]
  simp only [Value.iterate, pure_eq_ok, ok_bind, h]
  rw [hlength, List.drop_length, List.append_nil]

theorem restoreValue_spec (hlib : lib.Lawful pool) {m : μ} {field : FieldDescriptor}
    (hfield : field ∈ (lib.descriptor m).fields)
    (hwalk : ∀ m', (Value.dict (lib.lean m')).depth < (Value.dict (lib.lean m)).depth →
      Restores lib pool walk m') :
    ∃ value, restoreValue pool walk field (Entries.lookup field.key (lib.lean m))
        (Entries.lookup field.key (lib.full m)) = .ok value ∧
      FieldRestored lib pool m field value ∧
      (value = none → Entries.lookup field.key (lib.lean m) = none) := by
  have hset := hlib.lean_has m field hfield
  cases hlookup : Entries.lookup field.key (lib.lean m) with
  | none => exact ⟨_, rfl, .of_missing hlib hfield hlookup, fun _ => rfl⟩
  | some v =>
      rw [hlookup, Option.isSome_some] at hset
      by_cases hdescribed : ∃ name, Described pool field name
      · obtain ⟨name, hname⟩ := hdescribed
        have hdepth := Value.depth_lt_of_lookup hlookup
        cases hrepeated : field.isRepeated with
        | false =>
            obtain ⟨hdescriptor, hlean, hfull⟩ :=
              hlib.singular m field hfield name hname hrepeated hset.symm
            obtain rfl := Option.some.inj (hlookup.symm.trans hlean)
            obtain ⟨entries, hentries, hbelow⟩ := hwalk _ hdepth
            rw [hdescriptor] at hentries
            refine ⟨some (.dict entries), ?_, ⟨?_, ?_, ?_, ?_, ?_⟩, fun h => by cases h⟩
            · rw [restoreValue_of_singular hname hrepeated, hfull, Option.getD_some, hentries]
              rfl
            · simp [hlookup]
            · exact fun hno => absurd hname (hno name)
            · simp [hlookup]
            · exact fun _ _ _ _ => ⟨entries, rfl, hbelow⟩
            · intro _ _ h
              rw [hrepeated] at h
              cases h
        | true =>
            obtain ⟨hdescriptor, hlean, hfull⟩ :=
              hlib.repeated m field hfield name hname hrepeated hset.symm
            obtain rfl := Option.some.inj (hlookup.symm.trans hlean)
            have hitems : ∀ item ∈ lib.items m field, Restores lib pool walk item := by
              intro item hitem
              apply hwalk
              have hmem : Value.dict (lib.lean item) ∈
                  (lib.items m field).map fun item => Value.dict (lib.lean item) :=
                List.mem_map_of_mem hitem
              have hle := Value.depth_le_of_mem hmem
              rw [Value.depth] at hdepth
              omega
            obtain ⟨values, hvalues, hall⟩ := mapM_walk_items hdescriptor hitems
            refine ⟨some (.list values), ?_, ⟨?_, ?_, ?_, ?_, ?_⟩, fun h => by cases h⟩
            · rw [restoreValue_of_repeated hname hrepeated, hfull,
                restoreItems_of_mapM (by rw [List.length_map]; exact hall.length_eq.symm) hvalues]
              rfl
            · simp [hlookup]
            · exact fun hno => absurd hname (hno name)
            · simp [hlookup]
            · intro _ _ h
              rw [hrepeated] at h
              cases h
            · exact fun _ _ _ _ => ⟨values, rfl, hall⟩
      · have hno : ∀ name, ¬ Described pool field name := fun name h => hdescribed ⟨name, h⟩
        exact ⟨some v, restoreValue_of_plain hno, .of_kept hlookup hno, fun h => by cases h⟩

/-- Once every field has become what it should, the message and all submessages outside of
maps are restored. -/
theorem restoredBelow_of_fields {m : μ} {entries : List (Scalar × Value)}
    (hfields : ∀ field ∈ (lib.descriptor m).fields,
      FieldRestored lib pool m field (Entries.lookup field.key entries))
    (honly : ∀ key, (∀ field ∈ (lib.descriptor m).fields, field.key ≠ key) →
      Entries.lookup key entries = none) :
    lib.RestoredBelow pool (fun path => ∀ step ∈ path, step.outsideMaps = true) m entries := by
  intro path m' hreach hpath
  cases hreach with
  | self =>
      refine ⟨entries, rfl, fun field h => (hfields field h).has_iff,
        fun field h => (hfields field h).kept, fun field h => (hfields field h).restored,
        fun field h name hname hrepeated hset => ?_, honly⟩
      obtain ⟨values, hvalues, hall⟩ := (hfields field h).repeated name hname hrepeated hset
      exact ⟨values, hvalues, hall.length_eq.symm⟩
  | @singular _ _ path field name hfield hname hsingular hset hrest =>
      obtain ⟨entries', hentries, hbelow⟩ :=
        (hfields field hfield).singular name hname hsingular hset
      obtain ⟨out, hout, hrestored⟩ := hbelow path m' hrest
        fun step hstep => hpath step (List.mem_cons_of_mem _ hstep)
      refine ⟨out, ?_, hrestored⟩
      have hread : (Step.field field.jsonName).read (.dict entries) = some (.dict entries') :=
        hentries
      rw [valueAt, hread, Option.bind_some, hout]
  | @repeated _ item _ path field name i hfield hname hrepeated hset hitem hrest =>
      obtain ⟨values, hvalues, hall⟩ :=
        (hfields field hfield).repeated name hname hrepeated hset
      obtain ⟨v, hv, entries', rfl, hbelow⟩ := exists_getElem?_of_forall₂ hall hitem
      obtain ⟨out, hout, hrestored⟩ := hbelow path m' hrest
        fun step hstep => hpath step (List.mem_cons_of_mem _ hstep)
      refine ⟨out, ?_, hrestored⟩
      have hread : (Step.item field.jsonName i).read (.dict entries) = some (.dict entries') := by
        have hget : (Value.dict entries).get? (.str field.jsonName) = some (.list values) :=
          hvalues
        rw [Step.read, hget]
        exact hv
      rw [valueAt, hread, Option.bind_some, hout]
  | map => exact absurd (hpath _ List.mem_cons_self) Bool.false_ne_true

/-- With fuel for the depth of the lean rendering, the recursion restores the message. -/
theorem restoreRequired_restores (hlib : lib.Lawful pool) (fuel : ℕ) (m : μ)
    (hfuel : (Value.dict (lib.lean m)).depth ≤ fuel) :
    Restores lib pool (restoreRequired pool fuel) m := by
  induction fuel generalizing m with
  | zero =>
      rw [Value.depth] at hfuel
      omega
  | succ fuel ih =>
      have hfield : ∀ field ∈ (lib.descriptor m).fields, ∃ value,
          restoreValue pool (restoreRequired pool fuel) field
            (Entries.lookup field.key (lib.lean m)) (Entries.lookup field.key (lib.full m)) =
              .ok value ∧ FieldRestored lib pool m field value ∧
                (value = none → Entries.lookup field.key (lib.lean m) = none) :=
        fun field h => restoreValue_spec hlib h fun m' hlt => ih m' (by omega)
      choose! values hvalues hrestored hnone using hfield
      obtain ⟨entries, hentries, hfields, hother⟩ :=
        foldlM_restoreField (hlib.distinct m) hvalues hnone
      refine ⟨entries, ?_, restoredBelow_of_fields ?_ ?_⟩
      · rw [restoreRequired, hentries]
        rfl
      · intro field h
        rw [hfields field h]
        exact hrestored field h
      · intro key hkey
        rw [hother key hkey]
        exact hlib.lean_only m key hkey

end Run

/-- The response of an agent is rendered with its required fields, in every message outside of
maps that is present. -/
theorem toDict_restores {μ : Type} (pool : String → MessageDescriptor) (lib : Library μ)
    (hlib : lib.Lawful pool) (m : μ) :
    ∃ entries, toDict pool (lib.descriptor m) (.dict (lib.lean m)) (.dict (lib.full m)) =
        .ok (.dict entries) ∧
      lib.RestoredBelow pool (fun path => ∀ step ∈ path, step.outsideMaps = true) m entries :=
  restoreRequired_restores hlib _ m le_rfl

namespace Crates

/-- A message with another one in a field and in a map, and no name in either. -/
inductive Message
  | crate
  | label

/-- A field that is required. -/
def nameField : FieldDescriptor := { jsonName := "name", required := true }

/-- A message within a message. -/
def firstField : FieldDescriptor :=
  { jsonName := "first", hasPresence := true, messageType := some "Label" }

/-- Messages under keys. -/
def labelsField : FieldDescriptor :=
  { jsonName := "labels", isRepeated := true, messageType := some "Crate.LabelsEntry" }

/-- The descriptors of a crate of labels. -/
def pool : String → MessageDescriptor
  | "Crate" => { fullName := "Crate", fields := [firstField, labelsField] }
  | "Crate.LabelsEntry" =>
      { fullName := "Crate.LabelsEntry", mapEntry := true,
        fields := [{ jsonName := "key" },
          { jsonName := "value", hasPresence := true, messageType := some "Label" }] }
  | "Label" => { fullName := "Label", fields := [nameField] }
  | name => { fullName := name, fields := [] }

/-- A crate with labels whose names are not set, in both renderings. -/
def library : Library Message where
  descriptor
    | .crate => pool "Crate"
    | .label => pool "Label"
  isSet
    | .crate, _ => true
    | .label, _ => false
  submessage _ _ := .label
  items _ _ := []
  values _ _ := [("a", .label)]
  lean
    | .crate => [(.str "first", .dict []), (.str "labels", .dict [(.str "a", .dict [])])]
    | .label => []
  full
    | .crate =>
        [(.str "first", .dict [(.str "name", .str "")]),
          (.str "labels", .dict [(.str "a", .dict [(.str "name", .str "")])])]
    | .label => [(.str "name", .str "")]

/-- What is to be checked of every field of every message. -/
theorem forall_fields {P : Message → FieldDescriptor → Prop} (hfirst : P .crate firstField)
    (hlabels : P .crate labelsField) (hname : P .label nameField) (m : Message) :
    ∀ field ∈ (library.descriptor m).fields, P m field := by
  cases m with
  | crate =>
      change ∀ field ∈ [firstField, labelsField], P .crate field
      rw [List.forall_mem_cons, List.forall_mem_singleton]
      exact ⟨hfirst, hlabels⟩
  | label =>
      change ∀ field ∈ [nameField], P .label field
      rwa [List.forall_mem_singleton]

theorem described_firstField {name : String} (h : Described pool firstField name) :
    name = "Label" :=
  (Option.some.inj h.1).symm

theorem not_described_labelsField {name : String} : ¬ Described pool labelsField name := by
  rintro ⟨hname, hshape⟩
  obtain rfl := Option.some.inj hname
  revert hshape
  decide +kernel

theorem not_described_nameField {name : String} : ¬ Described pool nameField name :=
  fun h => by cases h.1

theorem library_lawful : library.Lawful pool where
  distinct m := by cases m <;> decide +kernel
  lean_has := forall_fields (by decide +kernel) (by decide +kernel) (by decide +kernel)
  lean_only m key h := by
    cases m with
    | crate =>
        have hfirst : firstField.key ≠ key := h firstField List.mem_cons_self
        have hlabels : labelsField.key ≠ key :=
          h labelsField (List.mem_cons_of_mem _ List.mem_cons_self)
        change Entries.lookup key [(firstField.key, _), (labelsField.key, _)] = none
        have hfirst' : firstField.key.eq key = false := Entries.str_eq_false hfirst.symm
        have hlabels' : labelsField.key.eq key = false := Entries.str_eq_false hlabels.symm
        rw [Entries.lookup_cons, Entries.lookup_cons, Entries.lookup_nil, hfirst', hlabels']
        rfl
    | label => rfl
  full_has := forall_fields (by decide +kernel) (by decide +kernel) (by decide +kernel)
  singular := by
    apply forall_fields
    · intro name hname _ _
      obtain rfl := described_firstField hname
      exact ⟨rfl, rfl, rfl⟩
    · exact fun name hname => absurd hname not_described_labelsField
    · exact fun name hname => absurd hname not_described_nameField
  repeated := by
    apply forall_fields
    · exact fun _ _ h => absurd h Bool.false_ne_true
    · exact fun name hname => absurd hname not_described_labelsField
    · exact fun name hname => absurd hname not_described_nameField
  map := by
    apply forall_fields
    · intro name hname
      have hno : mapValueType pool firstField = none := by decide +kernel
      rw [hno] at hname
      cases hname
    · intro name hname _
      have hlabel : mapValueType pool labelsField = some "Label" := by decide +kernel
      obtain rfl := Option.some.inj (hlabel.symm.trans hname)
      refine ⟨?_, rfl, rfl⟩
      exact List.forall_mem_singleton.mpr rfl
    · intro name hname
      cases hname

end Crates

theorem toDict_restores_crate :
    Crates.library.Lawful Crates.pool ∧
      ∃ entries, toDict Crates.pool (Crates.library.descriptor .crate)
          (.dict (Crates.library.lean .crate)) (.dict (Crates.library.full .crate)) =
          .ok (.dict entries) ∧
        Crates.library.RestoredBelow Crates.pool
          (fun path => ∀ step ∈ path, step.outsideMaps = true) .crate entries :=
  ⟨Crates.library_lawful,
    toDict_restores Crates.pool Crates.library Crates.library_lawful .crate⟩

/-- The label in the map has no name, which is required. -/
theorem toDict_skips_maps :
    ¬ ∀ (μ : Type) (pool : String → MessageDescriptor) (lib : Library μ), lib.Lawful pool →
      ∀ m, ∃ entries, toDict pool (lib.descriptor m) (.dict (lib.lean m)) (.dict (lib.full m)) =
          .ok (.dict entries) ∧
        lib.RestoredBelow pool (fun _ => True) m entries := by
  intro h
  obtain ⟨entries, hentries, hbelow⟩ :=
    h Crates.Message Crates.pool Crates.library Crates.library_lawful .crate
  have hrun : toDict Crates.pool (Crates.library.descriptor .crate)
      (.dict (Crates.library.lean .crate)) (.dict (Crates.library.full .crate)) =
      .ok (.dict [(.str "first", .dict [(.str "name", .str "")]),
        (.str "labels", .dict [(.str "a", .dict [])])]) :=
    rfl
  obtain rfl := Value.dict.inj (Except.ok.inj (hrun.symm.trans hentries))
  have hreach : Crates.library.Reaches Crates.pool .crate [.value "labels" "a"] .label := by
    have hfield : Crates.labelsField ∈ (Crates.library.descriptor .crate).fields :=
      List.mem_cons_of_mem _ List.mem_cons_self
    have hname : mapValueType Crates.pool Crates.labelsField = some "Label" := by
      decide +kernel
    exact .map hfield hname rfl List.mem_cons_self (.self _)
  obtain ⟨entries', hentries', hrestored⟩ := hbelow _ _ hreach trivial
  have hvalue : valueAt [.value "labels" "a"]
      (.dict [(.str "first", .dict [(.str "name", .str "")]),
        (.str "labels", .dict [(.str "a", .dict [])])]) = some (.dict []) :=
    rfl
  obtain rfl := Value.dict.inj (Option.some.inj (hvalue.symm.trans hentries'))
  have hname := (hrestored.has_iff Crates.nameField List.mem_cons_self).mpr (.inr ⟨rfl, rfl⟩)
  cases hname

end RequiredFields

end A2aItk.Acts
