import Mathlib.Algebra.Order.Group.Multiset
import Mathlib.Logic.Relation

/-!
# Tours of a directed multigraph

A multigraph is the multiset of its edges. A tour is grown on a stack: it is
pushed forward while an unused edge leaves the top, and popped into a circuit
when none does. The rules below say what each move preserves, and that a tour
which empties its stack is a closed walk over its whole component.
-/

namespace A2aItk.Multigraph

variable {α : Type*}

/-- The consecutive pairs of a walk. -/
def hops : List α → List (α × α)
  | u :: v :: rest => (u, v) :: hops (v :: rest)
  | _ => []

@[simp] theorem hops_nil : hops ([] : List α) = [] := rfl

@[simp] theorem hops_singleton (u : α) : hops [u] = [] := rfl

@[simp] theorem hops_cons_cons (u v : α) (rest : List α) :
    hops (u :: v :: rest) = (u, v) :: hops (v :: rest) := rfl

theorem mem_of_mem_hops {walk : List α} {u v : α} (h : (u, v) ∈ hops walk) :
    u ∈ walk ∧ v ∈ walk := by
  induction walk with
  | nil => simp at h
  | cons a rest ih =>
      cases rest with
      | nil => simp at h
      | cons b rest =>
          rcases List.mem_cons.mp h with h | h
          · obtain ⟨rfl, rfl⟩ := Prod.mk.inj h
            simp
          · obtain ⟨hu, hv⟩ := ih h
            exact ⟨List.mem_cons_of_mem _ hu, List.mem_cons_of_mem _ hv⟩

/-- Every node of a walk but the last one starts a hop. -/
theorem exists_hop_of_mem {walk : List α} {u : α} (h : u ∈ walk) :
    (∃ v, (u, v) ∈ hops walk) ∨ walk.getLast? = some u := by
  induction walk with
  | nil => simp at h
  | cons a rest ih =>
      cases rest with
      | nil => right; simpa [eq_comm] using h
      | cons b rest =>
          rcases List.mem_cons.mp h with rfl | h
          · exact Or.inl ⟨b, by simp⟩
          · rcases ih h with ⟨v, hv⟩ | hlast
            · exact Or.inl ⟨v, by simp [hv]⟩
            · exact Or.inr (by simpa using hlast)

/-- Every node has as many edges in as out. -/
def DegreeBalanced (E : Multiset (α × α)) : Prop := E.map Prod.fst = E.map Prod.snd

instance [DecidableEq α] (E : Multiset (α × α)) : Decidable (DegreeBalanced E) :=
  inferInstanceAs (Decidable (E.map Prod.fst = E.map Prod.snd))

/-- Renaming the nodes keeps the balance. -/
theorem DegreeBalanced.map {β : Type*} {E : Multiset (α × α)} (f : α → β)
    (h : DegreeBalanced E) : DegreeBalanced (E.map (Prod.map f f)) := by
  have hmap := congrArg (Multiset.map f) h
  rw [Multiset.map_map, Multiset.map_map] at hmap
  rw [DegreeBalanced, Multiset.map_map, Multiset.map_map]
  exact hmap

/-- Two nodes joined by edges, whatever way the edges point. -/
def Linked (E : Multiset (α × α)) : α → α → Prop :=
  Relation.EqvGen fun u v => (u, v) ∈ E

namespace Linked

variable {E F : Multiset (α × α)} {u v w : α}

theorem edge (h : (u, v) ∈ E) : Linked E u v := Relation.EqvGen.rel _ _ h

theorem refl (E : Multiset (α × α)) (u : α) : Linked E u u := Relation.EqvGen.refl _

theorem symm (h : Linked E u v) : Linked E v u := Relation.EqvGen.symm _ _ h

theorem trans (h : Linked E u v) (h' : Linked E v w) : Linked E u w :=
  Relation.EqvGen.trans _ _ _ h h'

theorem mono (hE : E ⊆ F) (h : Linked E u v) : Linked F u v :=
  Relation.EqvGen.mono (fun _ _ he => hE he) _ _ h

/-- Renaming the nodes keeps them joined. -/
theorem map {β : Type*} (f : α → β) (h : Linked E u v) :
    Linked (E.map (Prod.map f f)) (f u) (f v) := by
  induction h with
  | rel a b hab => exact edge (Multiset.mem_map.mpr ⟨(a, b), hab, rfl⟩)
  | refl a => exact refl _ _
  | symm a b _ ih => exact ih.symm
  | trans a b c _ _ ih₁ ih₂ => exact ih₁.trans ih₂

/-- A property that no edge changes holds throughout a component. -/
theorem iff_of_edges {P : α → Prop} (hP : ∀ a b, (a, b) ∈ E → (P a ↔ P b))
    (h : Linked E u v) : P u ↔ P v := by
  induction h with
  | rel a b hab => exact hP a b hab
  | refl a => exact Iff.rfl
  | symm a b _ ih => exact ih.symm
  | trans a b c _ _ ih₁ ih₂ => exact ih₁.trans ih₂

/-- A component survives in every part of the graph that keeps its edges. -/
theorem of_component_subset {s : α} (hF : ∀ a b, (a, b) ∈ E → Linked E s a → (a, b) ∈ F)
    (h : Linked E u v) (hu : Linked E s u) : Linked F u v := by
  induction h with
  | rel a b hab => exact edge (hF a b hab hu)
  | refl a => exact refl F a
  | symm a b hab ih => exact (ih (hu.trans (Linked.symm hab))).symm
  | trans a b c hab _ ih₁ ih₂ => exact (ih₁ hu).trans (ih₂ (hu.trans hab))

end Linked

/-- A walk stays inside one component. -/
theorem linked_of_mem_walk {E : Multiset (α × α)} {walk : List α} {root u : α}
    (hE : ∀ e ∈ hops walk, e ∈ E) (hroot : walk.head? = some root) (hu : u ∈ walk) :
    Linked E root u := by
  induction walk generalizing root with
  | nil => simp at hu
  | cons a rest ih =>
      obtain rfl : a = root := by simpa using hroot
      cases rest with
      | nil =>
          obtain rfl : u = a := by simpa using hu
          exact Linked.refl E u
      | cons b rest =>
          rcases List.mem_cons.mp hu with rfl | hu
          · exact Linked.refl E u
          · have hab : Linked E a b := Linked.edge (hE _ (by simp))
            exact hab.trans (ih (fun e he => hE e (by simp [he])) rfl hu)

/-- A tour under way. `anchor` is the node the pushed part of the stack has to
return to before anything more can be popped. -/
structure Touring (root : α) (E unused : Multiset (α × α)) (anchor : α)
    (stack circuit : List α) : Prop where
  account : unused + ((hops stack).map Prod.swap : List (α × α)) +
    (hops (anchor :: circuit) : List (α × α)) = E
  surplus : ∀ u rest, stack = u :: rest →
    unused.map Prod.fst + {anchor} = unused.map Prod.snd + {u}
  bottom : stack.getLast? = some root
  closing : (anchor :: circuit).getLast? = some root
  drained : ∀ v ∈ circuit, v ∉ unused.map Prod.fst

/-- A finished tour: a closed walk at `root` that leaves no unused edge at any
of its nodes. -/
structure Toured (root : α) (E unused : Multiset (α × α)) (circuit : List α) : Prop where
  account : unused + (hops circuit : List (α × α)) = E
  balanced : DegreeBalanced unused
  head : circuit.head? = some root
  last : circuit.getLast? = some root
  drained : ∀ v ∈ circuit, v ∉ unused.map Prod.fst

namespace Touring

variable {root anchor u v w : α} {E unused : Multiset (α × α)} {stack circuit rest : List α}

theorem start (root : α) (h : DegreeBalanced E) : Touring root E E root [root] [] where
  account := by simp
  surplus := by
    intro u rest hu
    obtain ⟨rfl, -⟩ := List.cons.inj hu
    rw [h]
  bottom := rfl
  closing := rfl
  drained := by simp

theorem push (h : Touring root E ((u, v) ::ₘ unused) anchor (u :: rest) circuit) :
    Touring root E unused anchor (v :: u :: rest) circuit where
  account := by
    rw [← h.account]
    simp only [hops_cons_cons, List.map_cons, Prod.swap_prod_mk, ← Multiset.cons_coe,
      Multiset.add_cons, Multiset.cons_add]
  surplus := by
    intro a l hl
    obtain ⟨rfl, -⟩ := List.cons.inj hl
    have hs := h.surplus u rest rfl
    simp only [Multiset.map_cons, Multiset.cons_add] at hs
    apply (Multiset.cons_inj_right u).mp
    rw [hs, ← Multiset.singleton_add u, ← Multiset.singleton_add v]
    ac_rfl
  bottom := by simpa using h.bottom
  closing := h.closing
  drained := by
    intro a ha hin
    exact h.drained a ha (by simp only [Multiset.map_cons]; exact Multiset.mem_cons_of_mem hin)

/-- Where no unused edge leaves the top, the pushed part has closed. -/
theorem stuck (h : Touring root E unused anchor (u :: rest) circuit)
    (hu : u ∉ unused.map Prod.fst) : anchor = u := by
  have hs := h.surplus u rest rfl
  have hmem : u ∈ unused.map Prod.fst + {anchor} := by simp [hs]
  rcases Multiset.mem_add.mp hmem with hin | hin
  · exact absurd hin hu
  · exact (Multiset.mem_singleton.mp hin).symm

theorem pop (h : Touring root E unused anchor (u :: w :: rest) circuit)
    (hu : u ∉ unused.map Prod.fst) :
    Touring root E unused w (w :: rest) (u :: circuit) := by
  obtain rfl := h.stuck hu
  refine ⟨?_, ?_, by simpa using h.bottom, by simpa using h.closing, ?_⟩
  · rw [← h.account]
    simp only [hops_cons_cons, List.map_cons, Prod.swap_prod_mk, ← Multiset.cons_coe,
      Multiset.add_cons, Multiset.cons_add]
  · intro a l hl
    obtain ⟨rfl, -⟩ := List.cons.inj hl
    rw [add_right_cancel (h.surplus _ _ rfl)]
  · intro a ha
    rcases List.mem_cons.mp ha with rfl | ha
    · exact hu
    · exact h.drained a ha

theorem finish (h : Touring root E unused anchor [u] circuit)
    (hu : u ∉ unused.map Prod.fst) : Toured root E unused (u :: circuit) := by
  obtain rfl := h.stuck hu
  obtain rfl : anchor = root := by simpa using h.bottom
  refine ⟨by simpa using h.account, add_right_cancel (h.surplus _ _ rfl), rfl, h.closing, ?_⟩
  intro a ha
  rcases List.mem_cons.mp ha with rfl | ha
  · exact hu
  · exact h.drained a ha

end Touring

namespace Toured

variable {root u v : α} {E F unused : Multiset (α × α)} {circuit : List α}

theorem mem_hops_or_unused (h : Toured root E unused circuit) {e : α × α} :
    e ∈ E ↔ e ∈ hops circuit ∨ e ∈ unused := by
  rw [← h.account]
  simp [or_comm]

theorem notMem_fst (h : Toured root E unused circuit) (he : (u, v) ∈ unused) :
    u ∉ circuit := by
  intro hu
  exact h.drained u hu (Multiset.mem_map_of_mem Prod.fst he)

theorem notMem_snd (h : Toured root E unused circuit) (he : (u, v) ∈ unused) :
    v ∉ circuit := by
  intro hv
  have hin : v ∈ unused.map Prod.snd := Multiset.mem_map_of_mem Prod.snd he
  rw [← h.balanced] at hin
  exact h.drained v hv hin

/-- The nodes of a finished tour are the component of its root. -/
theorem mem_iff_linked (h : Toured root E unused circuit) :
    u ∈ circuit ↔ Linked E root u := by
  constructor
  · exact linked_of_mem_walk (fun e he => h.mem_hops_or_unused.mpr (Or.inl he)) h.head
  · intro hlink
    have hroot : root ∈ circuit := List.mem_of_mem_head? h.head
    refine (Linked.iff_of_edges (P := (· ∈ circuit)) ?_ hlink).mp hroot
    intro a b hab
    rcases h.mem_hops_or_unused.mp hab with hab | hab
    · obtain ⟨ha, hb⟩ := mem_of_mem_hops hab
      exact iff_of_true ha hb
    · exact iff_of_false (h.notMem_fst hab) (h.notMem_snd hab)

/-- Touring a component of what is left of `E` after some whole components,
marked by `visited`, walks that component of `E` and leaves the others. -/
theorem component {visited : α → Prop}
    (hvisited : ∀ a b, (a, b) ∈ E → (visited a ↔ visited b)) (hroot : ¬ visited root)
    (hF : ∀ e, e ∈ F ↔ e ∈ E ∧ ¬ visited e.1) (h : Toured root F unused circuit) :
    (∀ a, a ∈ circuit ↔ Linked E root a) ∧
      ∀ e, e ∈ unused ↔ e ∈ E ∧ ¬ (visited e.1 ∨ Linked E root e.1) := by
  have hsub : F ⊆ E := fun e he => ((hF e).mp he).1
  have hnodes : ∀ a, a ∈ circuit ↔ Linked E root a := by
    intro a
    rw [h.mem_iff_linked]
    refine ⟨Linked.mono hsub, fun hlink => ?_⟩
    refine Linked.of_component_subset (s := root) ?_ hlink (Linked.refl E root)
    intro b c hbc hb
    exact (hF _).mpr ⟨hbc, mt (Linked.iff_of_edges hvisited hb).mpr hroot⟩
  refine ⟨hnodes, fun e => ?_⟩
  rw [not_or, ← hnodes]
  constructor
  · intro he
    have heF : e ∈ F := h.mem_hops_or_unused.mpr (Or.inr he)
    exact ⟨hsub heF, ((hF e).mp heF).2, h.notMem_fst he⟩
  · rintro ⟨heE, hnv, hnc⟩
    rcases h.mem_hops_or_unused.mp ((hF e).mpr ⟨heE, hnv⟩) with he | he
    · exact absurd (mem_of_mem_hops he).1 hnc
    · exact he

end Toured

end A2aItk.Multigraph
