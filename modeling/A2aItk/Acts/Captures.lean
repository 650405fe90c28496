import A2aItk.Acts.Templates

/-!
# What a capture binds

A capture that cannot read one of its paths has bound the names before it, and keeps
them bound. Every other reference resolves as it did.
-/

namespace A2aItk.Acts

open Python

/-- The step and the name a dotted reference asks for. -/
def referenceParts (reference : List Char) : Option (String × String) :=
  let ref := String.ofList (Text.strip reference)
  if '.' ∈ ref.toList then
    let parts := Text.partition ['.'] ref.toList
    some (String.ofList parts.1, String.ofList parts.2.2)
  else none

namespace Scope

/-- What was captured under the names of the first entries, and nothing else, is new. -/
structure Records (stepId : String) (response : Value) (read : List (String × String))
    (scope scope' : Scope) : Prop where
  bound : ∀ entry ∈ read, ∃ v, readPath response entry.2 = .ok (some v) ∧
    (scope'.capturesOf stepId).get? entry.1 = some v
  kept : ∀ id name, (∀ entry ∈ read, (id, name) ≠ (stepId, entry.1)) →
    (scope'.capturesOf id).get? name = (scope.capturesOf id).get? name
  vars : scope'.vars = scope.vars
  env : scope'.env = scope.env

section Record

variable {scope : Scope} {stepId name : String} {v : Value}

@[simp] theorem capturesOf_record_self :
    (scope.record stepId name v).capturesOf stepId = (scope.capturesOf stepId).set name v := by
  simp [record, capturesOf]

theorem capturesOf_record_of_ne {id : String} (h : id ≠ stepId) :
    (scope.record stepId name v).capturesOf id = scope.capturesOf id := by
  simp [record, capturesOf, Dict.get?_set_of_ne _ _ h]

theorem get?_record_of_ne {id other : String} (h : (id, other) ≠ (stepId, name)) :
    ((scope.record stepId name v).capturesOf id).get? other =
      (scope.capturesOf id).get? other := by
  by_cases hid : id = stepId
  · subst hid
    have hother : other ≠ name := fun hname => h (by rw [hname])
    rw [capturesOf_record_self, Dict.get?_set_of_ne _ _ hother]
  · rw [capturesOf_record_of_ne hid]

end Record

namespace Records

variable {stepId : String} {response : Value} {read : List (String × String)}
  {scope scope' : Scope} {name path : String} {v : Value}

theorem refl (stepId : String) (response : Value) (scope : Scope) :
    Records stepId response [] scope scope where
  bound := by simp
  kept := by simp
  vars := rfl
  env := rfl

/-- One more entry is read before the others, under a name of its own. -/
theorem cons (hread : readPath response path = .ok (some v))
    (hnew : name ∉ read.map Prod.fst)
    (h : Records stepId response read (scope.record stepId name v) scope') :
    Records stepId response ((name, path) :: read) scope scope' where
  bound := by
    refine List.forall_mem_cons.mpr ⟨⟨v, hread, ?_⟩, h.bound⟩
    rw [h.kept stepId name ?_, capturesOf_record_self, Dict.get?_set_self]
    rintro entry hentry heq
    exact hnew (List.mem_map.mpr ⟨entry, hentry, (Prod.mk.inj heq).2.symm⟩)
  kept := by
    intro id other hother
    obtain ⟨hfirst, hrest⟩ := List.forall_mem_cons.mp hother
    rw [h.kept id other hrest, get?_record_of_ne hfirst]
  vars := h.vars
  env := h.env

end Records

/-- No value can be read at the path of the entry. -/
def Unreadable (response : Value) (entry : String × String) : Prop :=
  ∀ v, readPath response entry.2 ≠ .ok (some v)

theorem capture_of_unreadable (stepId : String) {response : Value} {entry : String × String}
    (rest : List (String × String)) (scope : Scope) (h : Unreadable response entry) :
    ∃ e, scope.capture stepId response (entry :: rest) = (scope, .error e) := by
  obtain ⟨name, path⟩ := entry
  rw [capture]
  cases hread : readPath response path with
  | error e => exact ⟨e, rfl⟩
  | ok found =>
      cases found with
      | none => exact ⟨_, rfl⟩
      | some v => exact absurd hread (h v)

/-- A capture reads entries up to the first that cannot be read. -/
theorem records_capture (stepId : String) (response : Value) {paths : List (String × String)}
    (hdistinct : (paths.map Prod.fst).Nodup) (scope : Scope) :
    ∃ read rest, paths = read ++ rest ∧
      Records stepId response read scope (scope.capture stepId response paths).1 ∧
      ((rest = [] ∧ (scope.capture stepId response paths).2 = .ok ()) ∨
        ∃ entry after e, rest = entry :: after ∧ Unreadable response entry ∧
          (scope.capture stepId response paths).2 = .error e) := by
  induction paths generalizing scope with
  | nil => exact ⟨[], [], rfl, .refl stepId response scope, .inl ⟨rfl, rfl⟩⟩
  | cons entry paths ih =>
      obtain ⟨name, path⟩ := entry
      obtain ⟨hnew, hdistinct⟩ := List.nodup_cons.mp hdistinct
      by_cases hread : ∃ v, readPath response path = .ok (some v)
      · obtain ⟨v, hread⟩ := hread
        have hcapture : scope.capture stepId response ((name, path) :: paths) =
            (scope.record stepId name v).capture stepId response paths := by
          rw [capture, hread]
        rw [hcapture]
        obtain ⟨read, rest, rfl, hrecords, hends⟩ := ih hdistinct (scope.record stepId name v)
        refine ⟨(name, path) :: read, rest, rfl, hrecords.cons hread ?_, hends⟩
        exact fun hin => hnew (by simp [List.map_append, hin])
      · have hunreadable : Unreadable response (name, path) := fun v hv => hread ⟨v, hv⟩
        obtain ⟨e, hcapture⟩ := capture_of_unreadable stepId paths scope hunreadable
        rw [hcapture]
        exact ⟨[], _, rfl, .refl stepId response scope,
          .inr ⟨_, _, e, rfl, hunreadable, rfl⟩⟩

section Resolve

variable {σ : Type} {py : Interpreter} {newUuid : σ → String × σ} {scope scope' : Scope}
  {reference : List Char} {s t : σ} {v : Value}

theorem isUuid_of_referenceParts {parts : String × String}
    (h : referenceParts reference = some parts) : isUuid reference = false := by
  rw [isUuid, decide_eq_false_iff_not]
  intro huuid
  simp [referenceParts, huuid] at h

/-- What a reference stands for depends on what was captured under it, and on the
variables. -/
theorem lookup?_eq (scope : Scope) (reference : List Char) :
    scope.lookup? reference =
      ((referenceParts reference).bind fun parts =>
        (scope.capturesOf parts.1).get? parts.2).or
        ({ scope with captures := Dict.empty }.lookup? reference) := by
  unfold lookup? referenceParts
  dsimp only
  generalize String.ofList (Text.strip reference) = ref
  by_cases hdot : '.' ∈ ref.toList
  · simp only [if_pos hdot]
    rfl
  · simp only [if_neg hdot]
    rfl

/-- A dotted reference to something captured is that. -/
theorem resolve_of_captured {stepId name : String}
    (hparts : referenceParts reference = some (stepId, name))
    (hcaptured : (scope.capturesOf stepId).get? name = some v) :
    scope.resolve py newUuid reference s = .ok v s := by
  have hlookup : scope.lookup? reference = some v := by
    rw [lookup?_eq, hparts, Option.bind_some, hcaptured, Option.some_or]
  obtain ⟨w, hw, hresolve⟩ | ⟨hnone, -⟩ :=
    @resolve_of_not_isUuid py σ newUuid scope reference (isUuid_of_referenceParts hparts)
  · cases hlookup.symm.trans hw
    rw [hresolve]
    rfl
  · cases hlookup.symm.trans hnone

/-- Where nothing else was captured under it, a reference resolves as it did. -/
theorem resolve_eq_ok_of_lookup (hlookup : scope'.lookup? reference = scope.lookup? reference)
    (h : scope.resolve py newUuid reference s = .ok v t) :
    scope'.resolve py newUuid reference s = .ok v t := by
  cases huuid : isUuid reference with
  | true =>
      rw [resolve_of_isUuid huuid] at h ⊢
      exact h
  | false =>
      obtain ⟨w, hw, hresolve⟩ | ⟨hnone, message, hresolve⟩ :=
        @resolve_of_not_isUuid py σ newUuid scope reference huuid
      · rw [hresolve] at h
        cases h
        obtain ⟨w', hw', hresolve'⟩ | ⟨hnone', -⟩ :=
          @resolve_of_not_isUuid py σ newUuid scope' reference huuid
        · cases hw'.symm.trans (hlookup.trans hw)
          rw [hresolve']
          rfl
        · cases hnone'.symm.trans (hlookup.trans hw)
      · rw [hresolve] at h
        cases h

end Resolve

/-- The first entries are bound to what is read at their paths, and every other reference
stands for what it did. -/
structure Binds (stepId : String) (response : Value) (read : List (String × String))
    (scope scope' : Scope) : Prop where
  bound : ∀ entry ∈ read, ∃ v, readPath response entry.2 = .ok (some v) ∧
    ∀ {σ : Type} (py : Interpreter) (newUuid : σ → String × σ) reference s,
      referenceParts reference = some (stepId, entry.1) →
      scope'.resolve py newUuid reference s = .ok v s
  kept : ∀ {σ : Type} (py : Interpreter) (newUuid : σ → String × σ) reference s v t,
    (∀ entry ∈ read, referenceParts reference ≠ some (stepId, entry.1)) →
    (scope'.resolve py newUuid reference s = .ok v t ↔
      scope.resolve py newUuid reference s = .ok v t)

theorem Records.binds {stepId : String} {response : Value} {read : List (String × String)}
    {scope scope' : Scope} (h : Records stepId response read scope scope') :
    Binds stepId response read scope scope' where
  bound := by
    intro entry hentry
    obtain ⟨v, hread, hcaptured⟩ := h.bound entry hentry
    exact ⟨v, hread, fun py newUuid reference s hparts => resolve_of_captured hparts hcaptured⟩
  kept := by
    intro σ py newUuid reference s v t hother
    have hlookup : scope'.lookup? reference = scope.lookup? reference := by
      rw [lookup?_eq scope', lookup?_eq scope]
      congr 1
      · cases hparts : referenceParts reference with
        | none => rfl
        | some parts =>
            refine h.kept parts.1 parts.2 fun entry hentry heq => ?_
            exact hother entry hentry (hparts.trans (congrArg some heq))
      · simp [lookup?, capturesOf, h.vars, h.env]
    exact ⟨resolve_eq_ok_of_lookup hlookup.symm, resolve_eq_ok_of_lookup hlookup⟩

/-- A capture binds the entries before the first that cannot be read: all of them where it
returns. -/
theorem capture_binds_readable (stepId : String) (response : Value)
    (paths : Dict String String) (scope : Scope) :
    ∃ read rest, paths.entries = read ++ rest ∧
      Binds stepId response read scope (scope.capture stepId response paths.entries).1 ∧
      ((rest = [] ∧ (scope.capture stepId response paths.entries).2 = .ok ()) ∨
        ∃ entry after e, rest = entry :: after ∧ Unreadable response entry ∧
          (scope.capture stepId response paths.entries).2 = .error e) := by
  obtain ⟨read, rest, hpaths, hrecords, hends⟩ :=
    records_capture stepId response paths.distinct scope
  exact ⟨read, rest, hpaths, hrecords.binds, hends⟩

section TwoNames

/-- A task id that is there, and a context id that is not. -/
def twoNames : Dict String String :=
  Dict.ofList [("taskId", "task.id"), ("contextId", "task.contextId")]

def taskOnly : Value := .object [("task", .object [("id", .str "T1")])]

def noVariables : Scope := ⟨Dict.empty, fun _ => none, Dict.empty⟩

/-- The capture raises, and what it bound before stays bound. -/
theorem half_captured :
    ¬∀ (stepId : String) (response : Value) (paths : Dict String String) (scope : Scope),
      (scope.capture stepId response paths.entries).2 = .ok () ∨
        ∀ reference v, (scope.capture stepId response paths.entries).1.resolve .plain
            (fun s : Unit => ("", s)) reference () = .ok v () →
          scope.resolve .plain (fun s : Unit => ("", s)) reference () = .ok v () := by
  intro h
  cases h "send" taskOnly twoNames noVariables with
  | inl hok => cases hok
  | inr hkept => cases hkept "send.taskId".toList (.str "T1") rfl

end TwoNames

end Scope

end A2aItk.Acts
