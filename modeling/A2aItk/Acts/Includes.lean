import A2aItk.Acts.Loading

/-!
# The files a manifest reaches

The walk over the includes, where it returns, has visited every file that the manifest
reaches, each once, and holds what is in it. What a file includes is read off its
document here, without the walk: the files its `include` list names, in the order of the
list, from the directory the file is in.
-/

namespace A2aItk.Acts.Loader

open Python
open Launcher (Path)

section Documents

variable {fs : FileSystem} {root path : Path} {included included' : List Path} {raw : Value}

/-- The document of a file includes these files: one for each entry of its `include`
list, in the order of the list, and none without one. -/
inductive Includes (fs : FileSystem) (path : Path) : List Path → Prop
  | none {entries : List (Scalar × Value)} (hparsed : fs.parsed path = .ok (.dict entries))
      (hnone : Value.lookup (.str "include") entries = .none) : Includes fs path []
  | list {entries : List (Scalar × Value)} {names : List String}
      (hparsed : fs.parsed path = .ok (.dict entries))
      (hlist : Value.lookup (.str "include") entries = some (.list (names.map Value.str))) :
      Includes fs path (names.map fun name => fs.resolve (Paths.join (Paths.parent path) name))

theorem Includes.unique (h : Includes fs path included) (h' : Includes fs path included') :
    included = included' := by
  cases h with
  | none hparsed hnone =>
      cases h' with
      | none => rfl
      | list hparsed' hlist' =>
          cases hparsed.symm.trans hparsed'
          cases hnone.symm.trans hlist'
  | list hparsed hlist =>
      cases h' with
      | none hparsed' hnone' =>
          cases hparsed.symm.trans hparsed'
          cases hlist.symm.trans hnone'
      | list hparsed' hlist' =>
          cases hparsed.symm.trans hparsed'
          have hnames := Value.list.inj (Option.some.inj (hlist.symm.trans hlist'))
          have hinjective : Function.Injective Value.str :=
            fun a b hab => Scalar.str.inj (Value.scalar.inj hab)
          rw [List.map_injective_iff.mpr hinjective hnames]

/-- An entry that names a file is a text, resolved from the directory of the document. -/
theorem child_eq_ok {current : Path} {entry : Value}
    (h : child fs root current entry = .ok path) :
    ∃ name, entry = .str name ∧ path = fs.resolve (Paths.join (Paths.parent current) name) := by
  unfold child at h
  split at h
  · next name =>
      dsimp only at h
      split at h
      · cases h
      · split at h
        · cases h
        · cases h
          exact ⟨name, rfl, rfl⟩
  · cases h

theorem children_eq_ok {current : Path} {items : List Value}
    (h : items.mapM (child fs root current) = .ok included) :
    ∃ names : List String, items = names.map Value.str ∧
      included = names.map fun name => fs.resolve (Paths.join (Paths.parent current) name) := by
  have hall := mapM_eq_ok_iff.mp h
  clear h
  induction hall with
  | nil => exact ⟨[], rfl, rfl⟩
  | cons hchild _ ih =>
      obtain ⟨name, rfl, rfl⟩ := child_eq_ok hchild
      obtain ⟨names, rfl, rfl⟩ := ih
      exact ⟨name :: names, rfl, rfl⟩

/-- The walk goes on to what the document of the file includes. -/
theorem includes_of_visit (h : visit fs root path = .ok (raw, included)) :
    Includes fs path included := by
  obtain ⟨document, hdocument, h⟩ := bind_eq_ok_iff.mp h
  obtain ⟨found, hchildren, h⟩ := bind_eq_ok_iff.mp h
  cases h
  obtain ⟨data, hdata, hmapping⟩ := bind_eq_ok_iff.mp hdocument
  have hparsed : fs.parsed path = .ok data := by
    unfold readYaml at hdata
    split at hdata
    · split at hdata
      · next parsed hparsed =>
          split at hdata
          · cases hdata
          · cases hdata
            exact hparsed
      · cases hdata
    · cases hdata
  cases data with
  | scalar _ => cases hmapping
  | list _ => cases hmapping
  | dict entries =>
      cases hmapping
      have hget : (Value.dict entries).get? (.str "include") =
          Value.lookup (.str "include") entries := rfl
      unfold children at hchildren
      rw [hget] at hchildren
      cases hinclude : Value.lookup (.str "include") entries with
      | none =>
          rw [hinclude] at hchildren
          cases hchildren
          exact .none hparsed hinclude
      | some listed =>
          rw [hinclude] at hchildren
          cases listed with
          | scalar _ => cases hchildren
          | dict _ => cases hchildren
          | list items =>
              obtain ⟨names, rfl, rfl⟩ := children_eq_ok hchildren
              exact .list hparsed hinclude

end Documents

section Reached

variable {fs : FileSystem} {root start : Path}

/-- The files that the includes lead to. -/
inductive Reached (fs : FileSystem) (start : Path) : Path → Prop
  | start : Reached fs start start
  | step {path next : Path} {included : List Path} (h : Reached fs start path)
      (hincludes : Includes fs path included) (hnext : next ∈ included) : Reached fs start next

/-- What the walk keeps: `stack` is to be visited, `ordered` was. -/
structure Walked (fs : FileSystem) (root start : Path) (stack : List Path)
    (ordered : List (Path × Value)) : Prop where
  nodup : (ordered.map Prod.fst).Nodup
  rooted : start ∈ ordered.map Prod.fst ∨ start ∈ stack
  pending : ∀ path ∈ stack, Reached fs start path
  visited : ∀ document ∈ ordered, Reached fs start document.1 ∧
    ∃ included, visit fs root document.1 = .ok (document.2, included) ∧
      ∀ path ∈ included, path ∈ ordered.map Prod.fst ∨ path ∈ stack

namespace Walked

variable {stack included : List Path} {ordered : List (Path × Value)} {current path : Path}
  {raw : Value}

theorem initial : Walked fs root start [start] [] where
  nodup := List.nodup_nil
  rooted := .inr (by simp)
  pending := by simp [Reached.start]
  visited := by simp

theorem skip (h : Walked fs root start (current :: stack) ordered)
    (hseen : current ∈ ordered.map Prod.fst) : Walked fs root start stack ordered := by
  have hkept : ∀ {path : Path}, path ∈ ordered.map Prod.fst ∨ path ∈ current :: stack →
      path ∈ ordered.map Prod.fst ∨ path ∈ stack := by
    rintro path (hdone | hpending)
    · exact .inl hdone
    · cases hpending with
      | head => exact .inl hseen
      | tail _ hrest => exact .inr hrest
  refine ⟨h.nodup, hkept h.rooted, fun path hpath => h.pending path (by simp [hpath]), ?_⟩
  intro document hdocument
  obtain ⟨hreached, included, hvisit, hclosed⟩ := h.visited document hdocument
  exact ⟨hreached, included, hvisit, fun path hpath => hkept (hclosed path hpath)⟩

theorem visit (h : Walked fs root start (current :: stack) ordered)
    (hnew : current ∉ ordered.map Prod.fst)
    (hvisit : visit fs root current = .ok (raw, included)) :
    Walked fs root start (included ++ stack) (ordered ++ [(current, raw)]) := by
  have hcurrent := h.pending current (by simp)
  have hkept : ∀ {path : Path}, path ∈ ordered.map Prod.fst ∨ path ∈ current :: stack →
      path ∈ (ordered ++ [(current, raw)]).map Prod.fst ∨ path ∈ included ++ stack := by
    rintro path (hdone | hpending)
    · exact .inl (by simp [hdone])
    · cases hpending with
      | head => exact .inl (by simp)
      | tail _ hrest => exact .inr (List.mem_append_right _ hrest)
  refine ⟨?_, hkept h.rooted, ?_, ?_⟩
  · rw [List.map_append, List.map_singleton, List.nodup_append]
    refine ⟨h.nodup, List.nodup_singleton _, ?_⟩
    rintro path hpath last hlast rfl
    obtain rfl : path = current := List.mem_singleton.mp hlast
    exact hnew hpath
  · intro path hpath
    cases List.mem_append.mp hpath with
    | inl hincluded => exact hcurrent.step (includes_of_visit hvisit) hincluded
    | inr hrest => exact h.pending path (by simp [hrest])
  · intro document hdocument
    cases List.mem_append.mp hdocument with
    | inl hdone =>
        obtain ⟨hreached, included', hvisit', hclosed⟩ := h.visited document hdone
        exact ⟨hreached, included', hvisit', fun path hpath => hkept (hclosed path hpath)⟩
    | inr hlast =>
        obtain rfl := List.mem_singleton.mp hlast
        exact ⟨hcurrent, included, hvisit, fun path hpath => .inr (by simp [hpath])⟩

/-- Nothing is left to be visited: everything that is reached was. -/
theorem mem_iff (h : Walked fs root start [] ordered) :
    path ∈ ordered.map Prod.fst ↔ Reached fs start path := by
  constructor
  · intro hpath
    obtain ⟨document, hdocument, rfl⟩ := List.mem_map.mp hpath
    exact (h.visited document hdocument).1
  · intro hreached
    induction hreached with
    | start => exact h.rooted.resolve_right (by simp)
    | step _ hincludes hnext ih =>
        obtain ⟨document, hdocument, rfl⟩ := List.mem_map.mp ih
        obtain ⟨-, included, hvisited, hclosed⟩ := h.visited document hdocument
        obtain rfl := hincludes.unique (includes_of_visit hvisited)
        exact (hclosed _ hnext).resolve_right (by simp)

end Walked

theorem walk_of_visit {stack included : List Path} {ordered : List (Path × Value)}
    {current : Path} {raw : Value} (hnew : current ∉ ordered.map Prod.fst)
    (hvisit : visit fs root current = .ok (raw, included)) :
    walk fs root (current :: stack) ordered =
      walk fs root (included ++ stack) (ordered ++ [(current, raw)]) := by
  rw [walk, dif_neg hnew]
  split
  · rename_i hvisited
    rw [hvisit] at hvisited
    cases hvisited
    rfl
  · rename_i hvisited
    rw [hvisit] at hvisited
    cases hvisited

theorem walked_walk {stack : List Path} {ordered documents : List (Path × Value)}
    (h : Walked fs root start stack ordered) (hwalk : walk fs root stack ordered = .ok documents) :
    Walked fs root start [] documents := by
  fun_induction walk fs root stack ordered with
  | case1 ordered =>
      cases hwalk
      exact h
  | case2 ordered current stack hseen ih => exact ih (h.skip hseen) hwalk
  | case3 ordered current stack hnew raw included hvisit ih =>
      exact ih (h.visit hnew hvisit) hwalk
  | case4 => cases hwalk

/-- The documents of a manifest are the files it reaches, each once. -/
theorem reached_of_resolveIncludes {manifest : Path} {documents : List (Path × Value)}
    (h : resolveIncludes fs manifest = .ok documents) :
    Walked fs (fs.resolve (Paths.parent manifest)) (fs.resolve manifest) [] documents :=
  walked_walk .initial h

end Reached

end A2aItk.Acts.Loader
