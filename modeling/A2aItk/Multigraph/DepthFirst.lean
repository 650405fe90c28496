import Mathlib.Logic.Basic

/-!
# Depth-first preorder

The recursive walk of a graph: a vertex before what lies below it, each vertex once, the
children of a vertex in the order they are listed.

`children v cs` says that `cs` are the children of `v`; a vertex may have none listed, and
then the walk does not get past it.
-/

namespace A2aItk.Multigraph

variable {α : Type*} {children : α → List α → Prop}

/-- Walking the vertices of a list, where some were seen before, passes these. -/
inductive DepthFirst (children : α → List α → Prop) : List α → List α → List α → Prop
  | nil (seen : List α) : DepthFirst children seen [] []
  | skip {seen rest order : List α} {v : α} (hseen : v ∈ seen)
      (hrest : DepthFirst children seen rest order) : DepthFirst children seen (v :: rest) order
  | visit {seen rest below order cs : List α} {v : α} (hnew : v ∉ seen)
      (hchildren : children v cs) (hbelow : DepthFirst children (seen ++ [v]) cs below)
      (hrest : DepthFirst children (seen ++ v :: below) rest order) :
      DepthFirst children seen (v :: rest) (v :: below ++ order)

namespace DepthFirst

variable {seen pending order order' : List α}

/-- There is one such walk. -/
theorem unique (hfun : ∀ v cs cs', children v cs → children v cs' → cs = cs')
    (h : DepthFirst children seen pending order) (h' : DepthFirst children seen pending order') :
    order = order' := by
  induction h generalizing order' with
  | nil =>
      cases h'
      rfl
  | skip hseen _ ih =>
      cases h' with
      | skip _ hrest => exact ih hrest
      | visit hnew _ _ _ => exact absurd hseen hnew
  | visit hnew hchildren _ _ ihbelow ihrest =>
      cases h' with
      | skip hseen _ => exact absurd hseen hnew
      | visit _ hchildren' hbelow' hrest' =>
          obtain rfl := hfun _ _ _ hchildren hchildren'
          obtain rfl := ihbelow hbelow'
          rw [ihrest hrest']

/-- Walking two lists is walking the one, and then the other. -/
theorem append_left {first second : List α}
    (h : DepthFirst children seen (first ++ second) order) :
    ∃ order₀ order₁, order = order₀ ++ order₁ ∧ DepthFirst children seen first order₀ ∧
      DepthFirst children (seen ++ order₀) second order₁ := by
  induction first generalizing seen order with
  | nil => exact ⟨[], order, rfl, .nil seen, by simpa using h⟩
  | cons v rest ih =>
      cases h with
      | skip hseen hrest =>
          obtain ⟨order₀, order₁, rfl, hfirst, hsecond⟩ := ih hrest
          exact ⟨order₀, order₁, rfl, .skip hseen hfirst, hsecond⟩
      | visit hnew hchildren hbelow hrest =>
          obtain ⟨order₀, order₁, rfl, hfirst, hsecond⟩ := ih hrest
          refine ⟨_ :: _ ++ order₀, order₁, by simp, .visit hnew hchildren hbelow hfirst, ?_⟩
          simpa using hsecond

end DepthFirst

end A2aItk.Multigraph
