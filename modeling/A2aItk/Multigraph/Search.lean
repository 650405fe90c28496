import Mathlib.Data.List.Nodup
import Mathlib.Data.List.Perm.Subperm
import Mathlib.Logic.Relation

/-!
# Exhaustive search from one node

A stack search over a neighbour function. With enough fuel for the nodes it
may meet, the search collects exactly what is reachable.
-/

namespace A2aItk.Multigraph.Search

variable {α : Type*} [DecidableEq α]

/-- Push the neighbours not seen before, marking each as seen. The pair is the
stack and the seen nodes. -/
def visit (neighbors : List α) (front : List α × List α) : List α × List α :=
  neighbors.foldl
    (fun s v => if v ∈ s.2 then s else (v :: s.1, v :: s.2)) front

/-- Pop a node, collect it, push its new neighbours, until the stack is empty. -/
def explore (neighbors : α → List α) : Nat → List α → List α → List α → List α
  | 0, _, _, component => component
  | _ + 1, [], _, component => component
  | fuel + 1, u :: stack, seen, component =>
      let front := visit (neighbors u) (stack, seen)
      explore neighbors fuel front.1 front.2 (component ++ [u])

section Visit

theorem mem_visit_seen (l stack seen : List α) (v : α) :
    v ∈ (visit l (stack, seen)).2 ↔ v ∈ seen ∨ v ∈ l := by
  induction l generalizing stack seen with
  | nil => simp [visit]
  | cons a rest ih =>
      simp only [visit, List.foldl_cons]
      by_cases ha : a ∈ seen
      · rw [if_pos ha]
        have h := ih stack seen
        simp only [visit] at h
        rw [h, List.mem_cons]
        constructor
        · tauto
        · rintro (hv | rfl | hv)
          · exact Or.inl hv
          · exact Or.inl ha
          · exact Or.inr hv
      · rw [if_neg ha]
        have h := ih (a :: stack) (a :: seen)
        simp only [visit] at h
        rw [h, List.mem_cons, List.mem_cons]
        tauto

theorem visit_nodup (l stack seen : List α) (h : seen.Nodup) :
    (visit l (stack, seen)).2.Nodup := by
  induction l generalizing stack seen with
  | nil => simpa [visit] using h
  | cons a rest ih =>
      simp only [visit, List.foldl_cons]
      by_cases ha : a ∈ seen
      · rw [if_pos ha]
        exact ih stack seen h
      · rw [if_neg ha]
        exact ih (a :: stack) (a :: seen) (h.cons ha)

/-- What is seen is always what is stacked or collected. -/
theorem visit_perm (l stack seen component : List α)
    (h : seen.Perm (stack ++ component)) :
    (visit l (stack, seen)).2.Perm ((visit l (stack, seen)).1 ++ component) := by
  induction l generalizing stack seen with
  | nil => simpa [visit] using h
  | cons a rest ih =>
      simp only [visit, List.foldl_cons]
      by_cases ha : a ∈ seen
      · rw [if_pos ha]
        exact ih stack seen h
      · rw [if_neg ha]
        exact ih (a :: stack) (a :: seen) (h.cons a)

end Visit

/-- What a search has established at any moment. -/
structure Exploring (neighbors : α → List α) (root : α)
    (stack seen component : List α) : Prop where
  account : seen.Perm (stack ++ component)
  nodup : seen.Nodup
  root_seen : root ∈ seen
  reached : ∀ v ∈ seen, Relation.ReflTransGen (fun a b => b ∈ neighbors a) root v
  closed : ∀ u ∈ component, ∀ v ∈ neighbors u, v ∈ seen

namespace Exploring

variable {neighbors : α → List α} {root u : α} {stack seen component : List α}

omit [DecidableEq α] in
theorem start (neighbors : α → List α) (root : α) :
    Exploring neighbors root [root] [root] [] where
  account := by simp
  nodup := by simp
  root_seen := by simp
  reached := by
    intro v hv
    obtain rfl : v = root := by simpa using hv
    exact .refl
  closed := by simp

theorem step (h : Exploring neighbors root (u :: stack) seen component) :
    Exploring neighbors root (visit (neighbors u) (stack, seen)).1
      (visit (neighbors u) (stack, seen)).2 (component ++ [u]) := by
  have hu : u ∈ seen := h.account.mem_iff.mpr (by simp)
  refine ⟨?_, visit_nodup _ _ _ h.nodup, (mem_visit_seen _ _ _ _).mpr (Or.inl h.root_seen),
    ?_, ?_⟩
  · refine visit_perm _ _ _ _ (h.account.trans ?_)
    apply List.Perm.trans (List.perm_append_singleton u (stack ++ component)).symm
    simp
  · intro v hv
    rcases (mem_visit_seen _ _ _ _).mp hv with hv | hv
    · exact h.reached v hv
    · exact (h.reached u hu).tail hv
  · intro a ha v hv
    rw [mem_visit_seen]
    rcases List.mem_append.mp ha with ha | ha
    · exact Or.inl (h.closed a ha v hv)
    · obtain rfl : a = u := by simpa using ha
      exact Or.inr hv

omit [DecidableEq α] in
/-- An empty stack has collected everything reachable. -/
theorem mem_iff_of_nil (h : Exploring neighbors root [] seen component) (v : α) :
    v ∈ component ↔ Relation.ReflTransGen (fun a b => b ∈ neighbors a) root v := by
  have hseen : ∀ a, a ∈ seen ↔ a ∈ component := fun a => by
    simpa using h.account.mem_iff (a := a)
  constructor
  · exact fun hv => h.reached v ((hseen v).mpr hv)
  · intro hv
    induction hv with
    | refl => exact (hseen root).mp h.root_seen
    | tail _ hab ih => exact (hseen _).mp (h.closed _ ih _ hab)

end Exploring

section Explore

variable {neighbors : α → List α} {root : α}

theorem prefix_explore (fuel : Nat) (stack seen component : List α) :
    component <+: explore neighbors fuel stack seen component := by
  induction fuel generalizing stack seen component with
  | zero => exact List.prefix_refl component
  | succ fuel ih =>
      cases stack with
      | nil => exact List.prefix_refl component
      | cons u stack =>
          exact (List.prefix_append component [u]).trans (ih _ _ _)

/-- The search collects its root first. -/
theorem head_explore (fuel : Nat) (root : α) :
    (explore neighbors (fuel + 1) [root] [root] []).head? = some root := by
  have h : [root] <+: explore neighbors (fuel + 1) [root] [root] [] :=
    prefix_explore fuel _ _ _
  obtain ⟨rest, hrest⟩ := h
  simp [← hrest]

theorem mem_explore_iff_of_exploring {nodes : List α} (fuel : Nat)
    (stack seen component : List α) (h : Exploring neighbors root stack seen component)
    (hroot : root ∈ nodes) (hnodes : ∀ u v, v ∈ neighbors u → v ∈ nodes)
    (hfuel : nodes.length ≤ fuel + component.length) (v : α) :
    v ∈ explore neighbors fuel stack seen component ↔
      Relation.ReflTransGen (fun a b => b ∈ neighbors a) root v := by
  induction fuel generalizing stack seen component with
  | zero =>
      have hsub : seen ⊆ nodes := by
        intro a ha
        rcases Relation.ReflTransGen.cases_tail (h.reached a ha) with rfl | ⟨b, _, hb⟩
        · exact hroot
        · exact hnodes b a hb
      have hle := (h.nodup.subperm hsub).length_le
      have hlen := h.account.length_eq
      rw [List.length_append] at hlen
      have hstack : stack = [] := List.length_eq_zero_iff.mp (by omega)
      subst hstack
      exact h.mem_iff_of_nil v
  | succ fuel ih =>
      cases stack with
      | nil => exact h.mem_iff_of_nil v
      | cons u stack =>
          refine ih _ _ _ h.step ?_
          simp only [List.length_append, List.length_singleton]
          omega

/-- Fuel for every node the search may meet is enough. -/
theorem mem_explore_iff {nodes : List α} (fuel : Nat) (hroot : root ∈ nodes)
    (hnodes : ∀ u v, v ∈ neighbors u → v ∈ nodes) (hfuel : nodes.length ≤ fuel) (v : α) :
    v ∈ explore neighbors fuel [root] [root] [] ↔
      Relation.ReflTransGen (fun a b => b ∈ neighbors a) root v :=
  mem_explore_iff_of_exploring fuel _ _ _ (.start neighbors root) hroot hnodes
    (by simpa using hfuel) v

end Explore

end A2aItk.Multigraph.Search
