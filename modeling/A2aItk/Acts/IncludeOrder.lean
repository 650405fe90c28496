import A2aItk.Acts.Includes
import A2aItk.Multigraph.DepthFirst

/-!
# The order of the included files

The walk keeps a stack and leaves what it has pushed twice for later. Its order is that of
the recursive walk, and it does not leave the directory of the manifest.
-/

namespace A2aItk.Acts.Loader

open Python Multigraph
open Launcher (Path)

section Order

variable {fs : FileSystem} {root : Path}

/-- What the walk adds to the files it has visited is in the order of the recursive walk. -/
theorem depthFirst_of_walk {stack : List Path} {ordered documents : List (Path × Value)}
    (h : walk fs root stack ordered = .ok documents) :
    ∃ order, documents.map Prod.fst = ordered.map Prod.fst ++ order ∧
      DepthFirst (Includes fs) (ordered.map Prod.fst) stack order := by
  fun_induction walk fs root stack ordered with
  | case1 ordered =>
      cases h
      exact ⟨[], by simp, .nil _⟩
  | case2 ordered current stack hseen ih =>
      obtain ⟨order, hdocuments, hwalk⟩ := ih h
      exact ⟨order, hdocuments, .skip hseen hwalk⟩
  | case3 ordered current stack hnew raw included hvisit ih =>
      obtain ⟨order, hdocuments, hwalk⟩ := ih h
      rw [List.map_append, List.map_singleton] at hdocuments hwalk
      -- the children are walked to their end before the rest of the stack
      obtain ⟨below, rest, rfl, hbelow, hrest⟩ := hwalk.append_left
      refine ⟨current :: below ++ rest, by simpa using hdocuments, ?_⟩
      exact .visit hnew (includes_of_visit hvisit) hbelow (by simpa using hrest)
  | case4 => cases h

end Order

section Directory

variable {fs : FileSystem} {root : Path}

theorem prefix_of_isWithin {path : Path} (h : Paths.isWithin path root = true) :
    root <+: path := by
  rw [Paths.isWithin, Bool.or_eq_true, decide_eq_true_iff] at h
  cases h with
  | inl heq => exact heq ▸ List.prefix_refl _
  | inr hparent =>
      have hmem : root ∈ Paths.parents path := by simpa using hparent
      exact List.mem_inits _ _ |>.mp (List.mem_of_mem_dropLast hmem)

theorem prefix_of_child {current path : Path} {entry : Value}
    (h : child fs root current entry = .ok path) : root <+: path := by
  unfold child at h
  split at h
  · dsimp only at h
    split at h
    · cases h
    next hwithin =>
      split at h
      · cases h
      · cases h
        exact prefix_of_isWithin (by simpa using hwithin)
  · cases h

/-- An included file lies in the directory. -/
theorem prefix_of_visit {current path : Path} {raw : Value} {included : List Path}
    (h : visit fs root current = .ok (raw, included)) (hpath : path ∈ included) :
    root <+: path := by
  obtain ⟨raw', -, h⟩ := bind_eq_ok_iff.mp h
  obtain ⟨included', hchildren, h⟩ := bind_eq_ok_iff.mp h
  cases h
  unfold children at hchildren
  split at hchildren
  · obtain ⟨entry, -, hentry⟩ := exists_left_of_mem (mapM_eq_ok_iff.mp hchildren) hpath
    exact prefix_of_child hentry
  · cases hchildren

/-- What the walk holds besides the manifest was named by a file it holds. -/
theorem prefix_of_walked {start : Path} {ordered : List (Path × Value)}
    (h : Walked fs root start [] ordered) {path : Path} (hpath : path ∈ ordered.map Prod.fst)
    (hne : path ≠ start) : root <+: path := by
  cases h.mem_iff.mp hpath with
  | start => exact absurd rfl hne
  | step hreached hincludes hnext =>
      obtain ⟨document, hdocument, rfl⟩ := List.mem_map.mp (h.mem_iff.mpr hreached)
      obtain ⟨-, included, hvisited, -⟩ := h.visited document hdocument
      obtain rfl := hincludes.unique (includes_of_visit hvisited)
      exact prefix_of_visit hvisited hnext

end Directory

/-- The walk visits what the manifest reaches, each file once, in the order of the
recursive walk and no other, and stays in the directory of the manifest. -/
theorem includes_depth_first (fs : FileSystem) (manifest : Path)
    (documents : List (Path × Value)) (h : resolveIncludes fs manifest = .ok documents) :
    (documents.map Prod.fst).Nodup ∧
    (∀ path, path ∈ documents.map Prod.fst ↔
      Reached fs (fs.resolve manifest) path) ∧
    (∀ order, DepthFirst (Includes fs) [] [fs.resolve manifest] order ↔
      order = documents.map Prod.fst) ∧
    ∀ path ∈ documents.map Prod.fst, path ≠ fs.resolve manifest →
      fs.resolve (Paths.parent manifest) <+: path := by
  have hwalked := reached_of_resolveIncludes h
  obtain ⟨order, hdocuments, hwalk⟩ := depthFirst_of_walk h
  obtain rfl : documents.map Prod.fst = order := hdocuments
  refine ⟨hwalked.nodup, fun path => hwalked.mem_iff, fun order => ⟨fun horder => ?_, ?_⟩, ?_⟩
  · exact horder.unique (fun _ _ _ hone hother => hone.unique hother) hwalk
  · rintro rfl
    exact hwalk
  · exact fun path hpath hne => prefix_of_walked hwalked hpath hne

section Cycle

theorem walk_of_seen {fs : FileSystem} {root current : Path} {stack : List Path}
    {ordered : List (Path × Value)} (hseen : current ∈ ordered.map Prod.fst) :
    walk fs root (current :: stack) ordered = walk fs root stack ordered := by
  rw [walk, dif_pos hseen]

def cycleFile (name : String) : Path := ["corpus", name]

def including (entries : List String) : Value :=
  .object [("include", .list (entries.map .str))]

/-- The manifest includes two files, and each of them leads back to it. -/
def cyclic : FileSystem where
  files := [cycleFile "suite", cycleFile "a", cycleFile "b"]
  resolve path := path
  parsed path := .ok (
    if path = cycleFile "suite" then including ["a", "b"]
    else if path = cycleFile "a" then including ["b", "suite"]
    else including ["suite"])

def cyclicDocuments : List (Path × Value) :=
  [(cycleFile "suite", including ["a", "b"]), (cycleFile "a", including ["b", "suite"]),
    (cycleFile "b", including ["suite"])]

theorem resolveIncludes_cyclic :
    resolveIncludes cyclic (cycleFile "suite") = .ok cyclicDocuments := by
  have hsuite : visit cyclic ["corpus"] (cycleFile "suite") =
      .ok (including ["a", "b"], [cycleFile "a", cycleFile "b"]) := rfl
  have ha : visit cyclic ["corpus"] (cycleFile "a") =
      .ok (including ["b", "suite"], [cycleFile "b", cycleFile "suite"]) := rfl
  have hb : visit cyclic ["corpus"] (cycleFile "b") =
      .ok (including ["suite"], [cycleFile "suite"]) := rfl
  calc resolveIncludes cyclic (cycleFile "suite")
      = walk cyclic ["corpus"] [cycleFile "suite"] [] := rfl
    _ = walk cyclic ["corpus"] [cycleFile "a", cycleFile "b"] (cyclicDocuments.take 1) :=
        walk_of_visit List.not_mem_nil hsuite
    _ = walk cyclic ["corpus"] [cycleFile "b", cycleFile "suite", cycleFile "b"]
          (cyclicDocuments.take 2) :=
        walk_of_visit (by decide) ha
    _ = walk cyclic ["corpus"] [cycleFile "suite", cycleFile "suite", cycleFile "b"]
          cyclicDocuments :=
        walk_of_visit (by decide) hb
    _ = walk cyclic ["corpus"] [cycleFile "suite", cycleFile "b"] cyclicDocuments :=
        walk_of_seen (by decide)
    _ = walk cyclic ["corpus"] [cycleFile "b"] cyclicDocuments := walk_of_seen (by decide)
    _ = walk cyclic ["corpus"] [] cyclicDocuments := walk_of_seen (by decide)
    _ = .ok cyclicDocuments := by rw [walk, pure_eq_ok]

theorem cyclic_depth_first :
    (cyclicDocuments.map Prod.fst).Nodup ∧
      (∀ order, DepthFirst (Includes cyclic) [] [cycleFile "suite"] order ↔
        order = [cycleFile "suite", cycleFile "a", cycleFile "b"]) ∧
      ∀ path ∈ cyclicDocuments.map Prod.fst, path ≠ cycleFile "suite" → ["corpus"] <+: path :=
  have hall := includes_depth_first cyclic (cycleFile "suite") cyclicDocuments
    resolveIncludes_cyclic
  ⟨hall.1, hall.2.2.1, hall.2.2.2⟩

end Cycle

end A2aItk.Acts.Loader
