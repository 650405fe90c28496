import A2aItk.Traversal.Hierholzer
import Mathlib.Data.List.Pairwise
import Mathlib.Data.Multiset.Bind

/-!
# What the traversal's circuits cover

The dictionaries of the traversal count the edges of its graph, its loop
follows the rules of a tour, and its components are those of the graph. From
these, the circuits partition the edges of any balanced graph.

## Implementation notes

A graph is the multiset of its edges. Nothing here asks the agents of a
scenario to be distinct.
-/

namespace A2aItk.Traversal

open Python
open Multigraph

section Counting

variable (edges : List (String × String)) (u v : String)

theorem count_foldl_adjacency (adj : String → List String) :
    (edges.foldl (fun (adj : String → List String) e =>
      Function.update adj e.1 (adj e.1 ++ [e.2])) adj u).count v =
      (adj u).count v + edges.count (u, v) := by
  induction edges generalizing adj with
  | nil => simp
  | cons e rest ih =>
      rw [List.foldl_cons, ih, List.count_cons]
      by_cases hu : e.1 = u
      · subst hu
        rw [Function.update_self, List.count_append, List.count_singleton]
        by_cases hv : e.2 = v
        · subst hv
          simp only [beq_self_eq_true, if_true]
          omega
        · have hne : (e == (e.1, v)) = false := by
            simp only [beq_eq_false_iff_ne, ne_eq, Prod.ext_iff, true_and]
            exact hv
          simp [hv, hne]
      · have hne : (e == (u, v)) = false := by
          simp only [beq_eq_false_iff_ne, ne_eq, Prod.ext_iff, not_and]
          exact fun h => absurd h hu
        rw [Function.update_of_ne (Ne.symm hu)]
        simp [hne]

theorem count_adjacency : (adjacency edges u).count v = edges.count (u, v) := by
  rw [adjacency, count_foldl_adjacency]
  simp

theorem mem_adjacency : v ∈ adjacency edges u ↔ (u, v) ∈ edges := by
  rw [← List.count_pos_iff, ← List.count_pos_iff, count_adjacency]

/-- A degree dictionary counts one end of every edge. -/
theorem foldl_degree (side : String × String → String) (degree : String → Nat) :
    edges.foldl (fun (d : String → Nat) e =>
      Function.update d (side e) (d (side e) + 1)) degree u =
      degree u + (edges.map side).count u := by
  induction edges generalizing degree with
  | nil => simp
  | cons e rest ih =>
      rw [List.foldl_cons, ih, List.map_cons, List.count_cons]
      by_cases hu : side e = u
      · subst hu
        simp only [Function.update_self, beq_self_eq_true, if_true]
        omega
      · rw [Function.update_of_ne (Ne.symm hu)]
        simp [hu]

theorem outDegree_eq : outDegree edges u = (edges.map Prod.fst).count u := by
  rw [outDegree, foldl_degree edges u Prod.fst]
  simp

theorem inDegree_eq : inDegree edges u = (edges.map Prod.snd).count u := by
  rw [inDegree, foldl_degree edges u Prod.snd]
  simp

theorem outDegree_pos_iff : 0 < outDegree edges u ↔ ∃ v, (u, v) ∈ edges := by
  simp [outDegree_eq, List.count_pos_iff]

end Counting

section Balance

theorem verifyEulerianGraph_eq_ok_iff (inDeg outDeg : String → Nat) (allSdks : List String) :
    verifyEulerianGraph inDeg outDeg allSdks = .ok () ↔
      ∀ node ∈ allSdks, inDeg node = outDeg node := by
  rw [verifyEulerianGraph, forM_eq_ok_iff]
  refine forall₂_congr fun node _ => ?_
  by_cases h : inDeg node = outDeg node
  · simp [h]
  · simp [h]

/-- The balance check accepts exactly the balanced graphs. -/
theorem verify_iff_balanced {edges : List (String × String)} {allSdks : List String}
    (hedges : ∀ e ∈ edges, e.1 ∈ allSdks ∧ e.2 ∈ allSdks) :
    verifyEulerianGraph (inDegree edges) (outDegree edges) allSdks = .ok () ↔
      DegreeBalanced (edges : Multiset (String × String)) := by
  rw [verifyEulerianGraph_eq_ok_iff, DegreeBalanced, Multiset.map_coe, Multiset.map_coe,
    Multiset.coe_eq_coe, List.perm_iff_count]
  simp only [inDegree_eq, outDegree_eq]
  constructor
  · intro h node
    by_cases hin : node ∈ allSdks
    · exact (h node hin).symm
    · have hfst : node ∉ edges.map Prod.fst := by
        simp only [List.mem_map, not_exists, not_and]
        rintro e he rfl
        exact hin (hedges e he).1
      have hsnd : node ∉ edges.map Prod.snd := by
        simp only [List.mem_map, not_exists, not_and]
        rintro e he rfl
        exact hin (hedges e he).2
      rw [List.count_eq_zero.mpr hfst, List.count_eq_zero.mpr hsnd]
  · exact fun h node _ => (h node).symm

/-- A failed balance check is a `ValueError`. -/
theorem verifyEulerianGraph_raisesOnly (inDeg outDeg : String → Nat) (allSdks : List String) :
    RaisesOnly (fun e => e.isValueError = true)
      (verifyEulerianGraph inDeg outDeg allSdks) := by
  apply RaisesOnly.forM
  intro node _
  split
  · exact RaisesOnly.error rfl
  · exact RaisesOnly.ok _ ()

/-- The complete digraph is its own mirror image. -/
theorem targetEdges_none (sdks : List String) :
    (targetEdges sdks none : Multiset (String × String)) =
      ((sdks : Multiset String) ×ˢ (sdks : Multiset String)).filter fun p => p.1 ≠ p.2 := by
  have hlist : targetEdges sdks none = (sdks ×ˢ sdks).filter fun p => p.1 ≠ p.2 := by
    simp only [targetEdges, SProd.sprod, List.product, List.filter_flatMap, List.filter_map]
    rfl
  rw [hlist, Multiset.coe_product, Multiset.filter_coe]

theorem balanced_targetEdges_none (sdks : List String) :
    DegreeBalanced (targetEdges sdks none : Multiset (String × String)) := by
  rw [targetEdges_none, DegreeBalanced]
  generalize (sdks : Multiset String) = s
  have hswap : ((s ×ˢ s).filter fun p => p.1 ≠ p.2).map Prod.swap =
      (s ×ˢ s).filter fun p => p.1 ≠ p.2 := by
    calc ((s ×ˢ s).filter fun p => p.1 ≠ p.2).map Prod.swap
        = ((s ×ˢ s).map Prod.swap).filter fun p => p.1 ≠ p.2 := by
          rw [Multiset.filter_map]
          congr 1
          exact Multiset.filter_congr fun p _ => ne_comm
      _ = (s ×ˢ s).filter fun p => p.1 ≠ p.2 := by rw [Multiset.map_swap_product]
  calc ((s ×ˢ s).filter fun p => p.1 ≠ p.2).map Prod.fst
      = (((s ×ˢ s).filter fun p => p.1 ≠ p.2).map Prod.swap).map Prod.fst := by rw [hswap]
    _ = ((s ×ˢ s).filter fun p => p.1 ≠ p.2).map Prod.snd := by
        rw [Multiset.map_map]
        rfl

theorem mem_targetEdges_none {sdks : List String} {u v : String} :
    (u, v) ∈ targetEdges sdks none ↔ u ∈ sdks ∧ v ∈ sdks ∧ u ≠ v := by
  rw [← Multiset.mem_coe, targetEdges_none, Multiset.mem_filter, Multiset.mem_product]
  simp [and_assoc]

theorem targetEdges_none_eq_nil_iff {sdks : List String} :
    targetEdges sdks none = [] ↔ ∀ u ∈ sdks, ∀ v ∈ sdks, u = v := by
  rw [List.eq_nil_iff_forall_not_mem]
  constructor
  · intro h u hu v hv
    by_contra hne
    exact h (u, v) (mem_targetEdges_none.mpr ⟨hu, hv, hne⟩)
  · rintro h ⟨u, v⟩ he
    obtain ⟨hu, hv, hne⟩ := mem_targetEdges_none.mp he
    exact hne (h u hu v hv)

end Balance

section Loop

/-- The adjacency lists hold exactly the unused edges. -/
def Holds (adj : String → List String) (unused : Multiset (String × String)) : Prop :=
  ∀ u v, unused.count (u, v) = (adj u).count v

theorem holds_adjacency (edges : List (String × String)) :
    Holds (adjacency edges) (edges : Multiset (String × String)) := by
  intro u v
  rw [Multiset.coe_count, count_adjacency]
  congr!

namespace Holds

variable {adj : String → List String} {unused : Multiset (String × String)} {u v : String}

theorem mem_iff (h : Holds adj unused) : (u, v) ∈ unused ↔ v ∈ adj u := by
  rw [← Multiset.count_pos, h u v, List.count_pos_iff]

theorem notMem_of_nil (h : Holds adj unused) (hu : adj u = []) :
    u ∉ unused.map Prod.fst := by
  rw [Multiset.mem_map]
  rintro ⟨⟨a, b⟩, hab, rfl⟩
  have hb : b ∈ adj a := h.mem_iff.mp hab
  simp only [hu, List.not_mem_nil] at hb

/-- Popping an adjacency list consumes the edge it pops. -/
theorem pop (h : Holds adj unused) {front : List String} (hu : adj u = front ++ [v]) :
    ∃ rest, unused = (u, v) ::ₘ rest ∧ Holds (Function.update adj u front) rest := by
  have hmem : (u, v) ∈ unused := h.mem_iff.mpr (by simp [hu])
  obtain ⟨rest, rfl⟩ := Multiset.exists_cons_of_mem hmem
  refine ⟨rest, rfl, fun a b => ?_⟩
  have hab := h a b
  rw [Multiset.count_cons] at hab
  by_cases ha : a = u
  · subst ha
    rw [hu, List.count_append, List.count_singleton] at hab
    rw [Function.update_self]
    by_cases hb : b = v
    · subst hb
      simpa using hab
    · have hvb : (v == b) = false := by simpa using Ne.symm hb
      simpa [hb, hvb] using hab
  · rw [Function.update_of_ne ha]
    simpa [ha] using hab

end Holds

/-- The loop grows a tour and, given fuel for every push and pop, finishes it. -/
theorem hierholzer_toured {root anchor : String} {E : Multiset (String × String)}
    (fuel : Nat) (adj : String → List String) (unused : Multiset (String × String))
    (u : String) (stack circuit : List String) (hadj : Holds adj unused)
    (h : Touring root E unused anchor (u :: stack) circuit.reverse)
    (hfuel : 2 * unused.card + (stack.length + 1) ≤ fuel) :
    ∃ left, Holds (hierholzer fuel adj (u :: stack) circuit).1 left ∧
      Toured root E left (hierholzer fuel adj (u :: stack) circuit).2.reverse ∧
      left.card ≤ unused.card := by
  induction fuel generalizing anchor adj unused u stack circuit with
  | zero => omega
  | succ fuel ih =>
      obtain hu | ⟨front, v, hu⟩ := List.eq_nil_or_concat' (adj u)
      · have hdrained : u ∉ unused.map Prod.fst := hadj.notMem_of_nil hu
        simp only [hierholzer, hu, List.getLast?_nil]
        cases stack with
        | nil =>
            have hnil : hierholzer fuel adj [] (circuit ++ [u]) = (adj, circuit ++ [u]) := by
              cases fuel <;> rfl
            rw [hnil]
            exact ⟨unused, hadj, by simpa using h.finish hdrained, le_refl _⟩
        | cons w stack =>
            have hpop := h.pop hdrained
            refine ih adj unused w stack (circuit ++ [u]) hadj (by simpa using hpop) ?_
            simp only [List.length_cons] at hfuel
            omega
      · obtain ⟨rest, rfl, hrest⟩ := hadj.pop hu
        simp only [hierholzer, hu, List.getLast?_concat, List.dropLast_concat]
        rw [Multiset.card_cons] at hfuel ⊢
        obtain ⟨left, hleft, htoured, hcard⟩ :=
          ih _ rest v (u :: stack) circuit hrest h.push (by simp only [List.length_cons]; omega)
        exact ⟨left, hleft, htoured, by omega⟩

end Loop

section Components

theorem mem_link (neighbors : String → List String) (u v a w : String) :
    w ∈ link u neighbors v a ↔ w ∈ neighbors a ∨ (a = u ∧ w = v) ∨ (a = v ∧ w = u) := by
  simp only [link, Function.update_apply]
  by_cases hav : a = v
  · subst hav
    by_cases hau : a = u
    · subst hau
      simp only [if_true, List.mem_insert_iff]
      tauto
    · simp only [if_neg hau, if_true, List.mem_insert_iff]
      tauto
  · by_cases hau : a = u
    · subst hau
      simp only [if_neg hav, if_true, List.mem_insert_iff]
      tauto
    · simp only [if_neg hav, if_neg hau]
      tauto

theorem mem_foldl_link (neighbors : String → List String) (l : List String) (u a w : String) :
    w ∈ l.foldl (link u) neighbors a ↔
      w ∈ neighbors a ∨ (a = u ∧ w ∈ l) ∨ (a ∈ l ∧ w = u) := by
  induction l generalizing neighbors with
  | nil => simp
  | cons v rest ih =>
      rw [List.foldl_cons, ih, mem_link]
      simp only [List.mem_cons]
      tauto

theorem mem_foldl_undirected (adj : String → List String) (nodes : List String)
    (neighbors : String → List String) (a w : String) :
    w ∈ nodes.foldl (fun neighbors u => (adj u).foldl (link u) neighbors) neighbors a ↔
      w ∈ neighbors a ∨ (a ∈ nodes ∧ w ∈ adj a) ∨ (w ∈ nodes ∧ a ∈ adj w) := by
  induction nodes generalizing neighbors with
  | nil => simp
  | cons u rest ih =>
      rw [List.foldl_cons, ih, mem_foldl_link]
      simp only [List.mem_cons]
      constructor
      · rintro ((h | ⟨rfl, h⟩ | ⟨h, rfl⟩) | h | h)
        all_goals tauto
      · rintro (h | ⟨rfl | ha, h⟩ | ⟨rfl | hw, h⟩)
        all_goals tauto

/-- The undirected neighbours are joined by an edge, one way or the other. -/
theorem mem_undirectedAdj {edges : List (String × String)} {allSdks : List String}
    (hedges : ∀ e ∈ edges, e.1 ∈ allSdks ∧ e.2 ∈ allSdks) (u v : String) :
    v ∈ undirectedAdj allSdks (adjacency edges) u ↔
      Relation.SymmGen (fun a b => (a, b) ∈ edges) u v := by
  rw [undirectedAdj, mem_foldl_undirected]
  simp only [List.not_mem_nil, false_or, mem_adjacency]
  constructor
  · rintro (⟨-, h⟩ | ⟨-, h⟩)
    · exact .of_rel h
    · exact .of_rel_symm h
  · rintro (h | h)
    · exact Or.inl ⟨(hedges _ h).1, h⟩
    · exact Or.inr ⟨(hedges _ h).1, h⟩

/-- Where neighbours are symmetric, the components of a list of nodes are whole,
apart, and cover the list. -/
theorem components_spec {neighbors : String → List String} {allSdks : List String}
    {linked : String → String → Prop} (hequiv : Equivalence linked) (fuel : Nat)
    (hexplore : ∀ node ∈ allSdks, ∀ v,
      v ∈ Search.explore neighbors fuel [node] [node] [] ↔ linked node v)
    (nodes visited : List String) (hnodes : ∀ node ∈ nodes, node ∈ allSdks)
    (hvisited : ∀ u v, linked u v → (u ∈ visited ↔ v ∈ visited)) :
    (∀ comp ∈ components neighbors fuel nodes visited, ∃ node ∈ nodes,
      comp = Search.explore neighbors fuel [node] [node] [] ∧ node ∉ visited) ∧
    (∀ node ∈ nodes, node ∈ visited ∨
      ∃ comp ∈ components neighbors fuel nodes visited, node ∈ comp) ∧
    (components neighbors fuel nodes visited).Pairwise
      (fun c d => ∀ u ∈ c, u ∉ d) := by
  induction nodes generalizing visited with
  | nil => simp [components]
  | cons node rest ih =>
      have hrest : ∀ n ∈ rest, n ∈ allSdks := fun n hn => hnodes n (by simp [hn])
      by_cases hin : node ∈ visited
      · obtain ⟨hfrom, hcover, hapart⟩ := ih visited hrest hvisited
        rw [components, if_pos hin]
        refine ⟨fun comp hcomp => ?_, fun n hn => ?_, hapart⟩
        · obtain ⟨n, hn, heq⟩ := hfrom comp hcomp
          exact ⟨n, by simp [hn], heq⟩
        · cases List.mem_cons.mp hn with
          | inl h => exact Or.inl (h ▸ hin)
          | inr h => exact hcover n h
      · have hmem := hexplore node (hnodes node (by simp))
        obtain ⟨hfrom, hcover, hapart⟩ :=
          ih (visited ++ Search.explore neighbors fuel [node] [node] []) hrest (by
            intro u v huv
            rw [List.mem_append, List.mem_append, hvisited u v huv, hmem, hmem]
            exact or_congr_right ⟨fun h => hequiv.trans h huv,
              fun h => hequiv.trans h (hequiv.symm huv)⟩)
        rw [components, if_neg hin]
        refine ⟨fun comp hcomp => ?_, fun n hn => ?_, List.pairwise_cons.mpr ⟨?_, hapart⟩⟩
        · cases List.mem_cons.mp hcomp with
          | inl h => exact ⟨node, by simp, h, hin⟩
          | inr h =>
              obtain ⟨n, hn, heq, hout⟩ := hfrom comp h
              exact ⟨n, by simp [hn], heq, fun hv => hout (List.mem_append_left _ hv)⟩
        · cases List.mem_cons.mp hn with
          | inl h =>
              subst h
              exact Or.inr ⟨_, by simp, (hmem n).mpr (hequiv.refl n)⟩
          | inr h =>
              obtain hv | ⟨comp, hcomp, hnc⟩ := hcover n h
              · cases List.mem_append.mp hv with
                | inl hv => exact Or.inl hv
                | inr hv => exact Or.inr ⟨_, by simp, hv⟩
              · exact Or.inr ⟨comp, by simp [hcomp], hnc⟩
        · intro d hd u hu hud
          obtain ⟨n, hn, rfl, hout⟩ := hfrom d hd
          have hnu : linked n u := (hexplore n (hrest n hn) u).mp hud
          have hnn : linked node n :=
            hequiv.trans ((hmem u).mp hu) (hequiv.symm hnu)
          exact hout (List.mem_append_right _ ((hmem n).mpr hnn))

end Components

section Circuits

variable {E : Multiset (String × String)} {start : String}

/-- Whole components of a graph, each led by a node an edge leaves. -/
structure Decomposed (E : Multiset (String × String)) (comps : List (List String)) : Prop where
  led : ∀ comp ∈ comps, ∃ node v, comp.head? = some node ∧ (node, v) ∈ E ∧
    ∀ u, u ∈ comp ↔ Linked E node u
  apart : comps.Pairwise fun c d => ∀ u ∈ c, u ∉ d
  cover : ∀ e ∈ E, ∃ comp ∈ comps, e.1 ∈ comp

theorem decomposed_decomposeIntoComponents {edges : List (String × String)}
    {allSdks : List String} (hedges : ∀ e ∈ edges, e.1 ∈ allSdks ∧ e.2 ∈ allSdks) :
    Decomposed (edges : Multiset (String × String))
      (decomposeIntoComponents allSdks (allSdks.filter fun n => outDegree edges n > 0)
        (adjacency edges)) := by
  have hreach : ∀ node v,
      Relation.ReflTransGen (fun a b => b ∈ undirectedAdj allSdks (adjacency edges) a) node v ↔
        Linked (edges : Multiset (String × String)) node v := by
    intro node v
    have hrel : (fun a b => b ∈ undirectedAdj allSdks (adjacency edges) a) =
        Relation.SymmGen fun a b => (a, b) ∈ edges := by
      funext a b
      exact propext (mem_undirectedAdj hedges a b)
    rw [hrel, Relation.EqvGen.reflTransGen_symmGen]
    rfl
  have hexplore : ∀ node ∈ allSdks, ∀ v,
      v ∈ Search.explore (undirectedAdj allSdks (adjacency edges)) (allSdks.length + 1)
        [node] [node] [] ↔ Linked (edges : Multiset (String × String)) node v := by
    intro node hnode v
    rw [← hreach]
    apply Search.mem_explore_iff _ hnode _ (by omega)
    intro a b hab
    obtain h | h := (mem_undirectedAdj hedges a b).mp hab
    · exact (hedges _ h).2
    · exact (hedges _ h).1
  obtain ⟨hfrom, hcover, hapart⟩ := components_spec
    ⟨Linked.refl _, Linked.symm, Linked.trans⟩ (allSdks.length + 1) hexplore
    (allSdks.filter fun n => outDegree edges n > 0) []
    (fun n hn => (List.mem_filter.mp hn).1) (by simp)
  refine ⟨fun comp hcomp => ?_, hapart, fun e he => ?_⟩
  · obtain ⟨node, hnode, rfl, -⟩ := hfrom comp hcomp
    obtain ⟨hin, hout⟩ := List.mem_filter.mp hnode
    obtain ⟨v, hv⟩ := (outDegree_pos_iff edges node).mp (by simpa using hout)
    exact ⟨node, v, Search.head_explore _ node, hv, hexplore node hin⟩
  · have hpos : 0 < outDegree edges e.1 := (outDegree_pos_iff edges e.1).mpr ⟨e.2, he⟩
    obtain h | h := hcover e.1 (List.mem_filter.mpr ⟨(hedges e he).1, by simpa using hpos⟩)
    · simp at h
    · exact h

theorem Decomposed.prioritize (start : String) {comps : List (List String)}
    (h : Decomposed E comps) :
    Decomposed E (prioritize start comps) := by
  have hperm : (Traversal.prioritize start comps).Perm comps := by
    have := List.filter_append_perm (fun c => decide (start ∈ c)) comps
    simpa [Traversal.prioritize] using this
  refine ⟨fun comp hcomp => h.led comp (hperm.mem_iff.mp hcomp), ?_, fun e he => ?_⟩
  · refine hperm.symm.pairwise h.apart ?_
    exact fun {c d} hcd u hd hc => hcd u hc hd
  · obtain ⟨comp, hcomp, hin⟩ := h.cover e he
    exact ⟨comp, hperm.mem_iff.mpr hcomp, hin⟩

/-- A circuit over a component, from `start` where the component has it. -/
structure CircuitOf (start : String) (comp circuit : List String) : Prop where
  closed : circuit.head? = circuit.getLast?
  nodes : ∀ u, u ∈ circuit ↔ u ∈ comp
  starts : start ∈ circuit → circuit.head? = some start

/-- The circuits of some components, walked where `visited` marks the components
walked before, use exactly the edges of these components. -/
theorem circuitsOf_spec (start : String) (fuel : Nat) (comps : List (List String))
    (adj : String → List String) (visited : String → Prop)
    {F : Multiset (String × String)} (hadj : Holds adj F) (hbalanced : DegreeBalanced F)
    (hF : ∀ e, e ∈ F ↔ e ∈ E ∧ ¬ visited e.1)
    (hvisited : ∀ a b, (a, b) ∈ E → (visited a ↔ visited b))
    (hled : ∀ comp ∈ comps, ∃ node v, comp.head? = some node ∧ (node, v) ∈ E ∧
      ∀ u, u ∈ comp ↔ Linked E node u)
    (hapart : comps.Pairwise fun c d => ∀ u ∈ c, u ∉ d)
    (hfresh : ∀ comp ∈ comps, ∀ u ∈ comp, ¬ visited u)
    (hfuel : 2 * F.card + 1 ≤ fuel) :
    List.Forall₂ (CircuitOf start) comps (circuitsOf start fuel comps adj) ∧
    ∃ left, left + ((circuitsOf start fuel comps adj).flatMap hops :
        Multiset (String × String)) = F ∧
      ∀ e ∈ left, ∀ comp ∈ comps, e.1 ∉ comp := by
  induction comps generalizing adj visited F with
  | nil => exact ⟨.nil, F, by simp [circuitsOf], by simp⟩
  | cons comp rest ih =>
      obtain ⟨node, v, hhead, hedge, hnodes⟩ := hled comp (by simp)
      obtain ⟨hhere, hrest⟩ := List.pairwise_cons.mp hapart
      obtain ⟨root, hroot, hlink⟩ : ∃ root,
          (if start ∈ comp then start else comp.headD start) = root ∧ Linked E node root := by
        by_cases hin : start ∈ comp
        · exact ⟨start, if_pos hin, (hnodes start).mp hin⟩
        · refine ⟨node, ?_, Linked.refl E node⟩
          rw [if_neg hin, List.headD_eq_head?_getD, hhead]
          rfl
      have hrootFresh : ¬ visited root := hfresh comp (by simp) root ((hnodes root).mpr hlink)
      obtain ⟨left, hleft, htoured, hcard⟩ := hierholzer_toured fuel adj F root [] [] hadj
        (.start root hbalanced) (by simpa using hfuel)
      obtain ⟨hmem, hunused⟩ := htoured.component hvisited hrootFresh hF
      have hcomp : ∀ u, u ∈ comp ↔ Linked E root u := fun u => by
        rw [hnodes]
        exact ⟨fun h => hlink.symm.trans h, fun h => hlink.trans h⟩
      obtain ⟨hcircuits, last, hlast, hdone⟩ := ih _ (fun u => visited u ∨ Linked E root u)
        hleft htoured.balanced hunused
        (fun a b hab => or_congr (hvisited a b hab)
          ⟨fun h => h.trans (.edge hab), fun h => h.trans (Linked.symm (.edge hab))⟩)
        (fun c hc => hled c (by simp [hc])) hrest
        (fun c hc u hu hor => by
          cases hor with
          | inl h => exact hfresh c (by simp [hc]) u hu h
          | inr h => exact hhere c hc u ((hcomp u).mpr h) hu)
        (by omega)
      simp only [circuitsOf, hroot]
      refine ⟨.cons ⟨?_, ?_, ?_⟩ hcircuits, last, ?_, ?_⟩
      · exact htoured.head.trans htoured.last.symm
      · intro u
        rw [hmem, hcomp]
      · intro hstart
        have hin : start ∈ comp := (hcomp start).mpr ((hmem start).mp hstart)
        rw [htoured.head, ← hroot, if_pos hin]
      · rw [List.flatMap_cons, ← Multiset.coe_add, ← htoured.account, ← hlast]
        ac_rfl
      · intro e he c hc
        cases List.mem_cons.mp hc with
        | inl h =>
            have hleftmem : e ∈ left := by
              rw [← hlast]
              exact Multiset.mem_add.mpr (Or.inl he)
            rw [h, hcomp]
            exact fun hl => ((hunused e).mp hleftmem).2 (Or.inr hl)
        | inr h => exact hdone e he c h

/-- The circuits of a traversal: closed walks over the components of the graph
that share out its edges, the one through `start` starting there. -/
structure EulerCircuits (E : Multiset (String × String)) (start : String)
    (circuits : List (List String)) : Prop where
  covers : (circuits.flatMap hops : Multiset (String × String)) = E
  closed : ∀ c ∈ circuits, ∃ s, c.head? = some s ∧ c.getLast? = some s
  starts : ∀ c ∈ circuits, start ∈ c → c.head? = some start
  component : ∀ c ∈ circuits, ∀ u ∈ c, ∀ v, v ∈ c ↔ Linked E u v
  apart : circuits.Pairwise fun c d => ∀ u ∈ c, u ∉ d
  moves : E ≠ 0 → ∀ c ∈ circuits, hops c ≠ []
  idle : E = 0 → circuits = [[start]]

namespace EulerCircuits

variable {circuits : List (List String)}

theorem mem_edges_iff (h : EulerCircuits E start circuits) {e : String × String} :
    e ∈ E ↔ ∃ c ∈ circuits, e ∈ hops c := by
  rw [← h.covers, Multiset.mem_coe, List.mem_flatMap]

theorem ne_nil (h : EulerCircuits E start circuits) : circuits ≠ [] := by
  rintro rfl
  have hE : E = 0 := by simpa using h.covers.symm
  exact absurd (h.idle hE) (by simp)

/-- An edge leaves every node of a circuit that moves. -/
theorem exists_edge_of_mem (h : EulerCircuits E start circuits) (hE : E ≠ 0)
    {c : List String} (hc : c ∈ circuits) {u : String} (hu : u ∈ c) :
    ∃ v, (u, v) ∈ E := by
  obtain ⟨s, hhead, hlast⟩ := h.closed c hc
  obtain ⟨v, hv⟩ | hend := exists_hop_of_mem hu
  · exact ⟨v, h.mem_edges_iff.mpr ⟨c, hc, hv⟩⟩
  · obtain rfl : s = u := Option.some.inj (hlast.symm.trans hend)
    have hmoves := h.moves hE c hc
    cases c with
    | nil => simp at hu
    | cons a rest =>
        obtain rfl : a = s := by simpa using hhead
        cases rest with
        | nil => simp at hmoves
        | cons b rest => exact ⟨b, h.mem_edges_iff.mpr ⟨_, hc, by simp⟩⟩

/-- A graph that hangs together with its first node is toured by one circuit,
from that node back to it. -/
theorem single (h : EulerCircuits E start circuits) {nodes : List String}
    (hnodes : ∀ c ∈ circuits, ∀ u ∈ c, u ∈ nodes) (hlinked : ∀ u ∈ nodes, Linked E start u) :
    ∃ c, circuits = [c] ∧ c.head? = some start ∧ c.getLast? = some start ∧
      ∀ u, Linked E start u → u ∈ c := by
  have hstart : ∀ c ∈ circuits, start ∈ c := by
    intro c hc
    obtain ⟨s, hhead, -⟩ := h.closed c hc
    have hs : s ∈ c := List.mem_of_head? hhead
    exact (h.component c hc s hs start).mpr (hlinked s (hnodes c hc s hs)).symm
  obtain ⟨c, rest, rfl⟩ := List.exists_cons_of_ne_nil h.ne_nil
  have hc : start ∈ c := hstart c (by simp)
  have hrest : rest = [] := by
    refine List.eq_nil_iff_forall_not_mem.mpr fun d hd => ?_
    have hapart := List.rel_of_pairwise_cons h.apart hd
    exact hapart start hc (hstart d (by simp [hd]))
  subst hrest
  have hhead := h.starts c (by simp) hc
  obtain ⟨s, hs, hlast⟩ := h.closed c (by simp)
  obtain rfl : s = start := Option.some.inj (hs.symm.trans hhead)
  exact ⟨c, rfl, hhead, hlast, fun u hu => (h.component c (by simp) s hc u).mpr hu⟩

end EulerCircuits

/-- A graph without edges is toured by standing still. -/
theorem eulerCircuits_zero (start : String) : EulerCircuits 0 start [[start]] where
  covers := by simp
  closed := by simp
  starts := by simp
  component := by
    intro c hc u hu v
    obtain rfl : c = [start] := by simpa using hc
    obtain rfl : u = start := by simpa using hu
    constructor
    · intro hv
      obtain rfl : v = u := by simpa using hv
      exact Linked.refl 0 v
    · intro h
      exact (Linked.iff_of_edges (P := (· ∈ [u])) (by simp) h).mp (by simp)
  apart := by simp
  moves := fun h => absurd rfl h
  idle := fun _ => rfl

theorem eulerCircuits_of_decomposed {edges : List (String × String)}
    {comps : List (List String)} (fuel : Nat)
    (hbalanced : DegreeBalanced (edges : Multiset (String × String))) (hne : edges ≠ [])
    (hcomps : Decomposed (edges : Multiset (String × String)) comps)
    (hfuel : 2 * edges.length + 1 ≤ fuel) :
    EulerCircuits (edges : Multiset (String × String)) start
      (circuitsOf start fuel comps (adjacency edges)) := by
  obtain ⟨hcircuits, left, hcovers, hdone⟩ := circuitsOf_spec start fuel comps
    (adjacency edges) (fun _ => False) (holds_adjacency edges) hbalanced (by simp) (by simp)
    hcomps.led hcomps.apart (by simp) (by simpa using hfuel)
  have hleft : left = 0 := by
    refine Multiset.eq_zero_of_forall_notMem fun e he => ?_
    have hin : e ∈ (edges : Multiset (String × String)) := by
      rw [← hcovers]
      exact Multiset.mem_add.mpr (Or.inl he)
    obtain ⟨comp, hcomp, hmem⟩ := hcomps.cover e hin
    exact hdone e he comp hcomp hmem
  rw [hleft, zero_add] at hcovers
  have hof : ∀ c ∈ circuitsOf start fuel comps (adjacency edges), CircuitOf start c c ∧
      ∃ node v, node ∈ c ∧ (node, v) ∈ edges ∧
        ∀ u, u ∈ c ↔ Linked (edges : Multiset (String × String)) node u := by
    intro c hc
    obtain ⟨comp, hcomp, hcircuit⟩ := exists_left_of_mem hcircuits hc
    obtain ⟨node, v, -, hedge, hnodes⟩ := hcomps.led comp hcomp
    refine ⟨⟨hcircuit.closed, fun _ => Iff.rfl, hcircuit.starts⟩, node, v, ?_, hedge, ?_⟩
    · exact (hcircuit.nodes node).mpr ((hnodes node).mpr (Linked.refl _ node))
    · exact fun u => (hcircuit.nodes u).trans (hnodes u)
  have hapart : (circuitsOf start fuel comps (adjacency edges)).Pairwise
      fun c d => ∀ u ∈ c, u ∉ d := by
    refine pairwise_of_forall₂ (fun a b c d hab hcd hac u hu hd => ?_) hcircuits hcomps.apart
    exact hac u ((hab.nodes u).mp hu) ((hcd.nodes u).mp hd)
  refine ⟨hcovers, fun c hc => ?_, fun c hc => (hof c hc).1.starts, fun c hc u hu v => ?_,
    hapart, fun _ c hc hnil => ?_, fun hzero => absurd ((Multiset.coe_eq_zero _).mp hzero) hne⟩
  · obtain ⟨hcircuit, node, v, hnode, -⟩ := hof c hc
    obtain ⟨s, rest, rfl⟩ := List.exists_cons_of_ne_nil (List.ne_nil_of_mem hnode)
    exact ⟨s, rfl, hcircuit.closed.symm⟩
  · obtain ⟨-, node, w, -, -, hnodes⟩ := hof c hc
    have hnu := (hnodes u).mp hu
    rw [hnodes]
    exact ⟨fun h => hnu.symm.trans h, fun h => hnu.trans h⟩
  · -- an edge leaves the component, so some circuit walks it: this one
    obtain ⟨-, node, v, hnode, hedge, -⟩ := hof c hc
    have hin : (node, v) ∈ (circuitsOf start fuel comps (adjacency edges)).flatMap hops := by
      rw [← Multiset.mem_coe, hcovers]
      exact hedge
    obtain ⟨d, hd, hhop⟩ := List.mem_flatMap.mp hin
    obtain ⟨hnd, -⟩ := mem_of_mem_hops hhop
    by_cases hcd : c = d
    · subst hcd
      simp [hnil] at hhop
    · have : Std.Symm fun c d : List String => ∀ u ∈ c, u ∉ d :=
        ⟨fun _ _ h u hu hc => h u hc hu⟩
      exact hapart.forall hc hd hcd node hnode hnd

theorem targetEdges_over (allSdks : List String) (edges : Option (List (String × String))) :
    ∀ e ∈ targetEdges allSdks edges, e.1 ∈ allSdks ∧ e.2 ∈ allSdks := by
  intro e he
  unfold targetEdges at he
  split at he
  · simpa using (List.mem_filter.mp he).2
  · obtain ⟨u, hu, hmem⟩ := List.mem_flatMap.mp he
    obtain ⟨v, hv, rfl⟩ := List.mem_map.mp hmem
    exact ⟨hu, (List.mem_filter.mp hv).1⟩

/-- The traversal of a balanced graph succeeds, and a graph it rejects is
unbalanced and rejected by a `ValueError`. -/
theorem eulerTraversal_cases (start : String) (allSdks : List String)
    (edges : Option (List (String × String))) :
    (DegreeBalanced (targetEdges allSdks edges : Multiset (String × String)) ∧
      ∃ circuits, eulerTraversalWithHierholzer start allSdks edges = .ok circuits ∧
        EulerCircuits (targetEdges allSdks edges : Multiset (String × String)) start circuits) ∨
    (¬ DegreeBalanced (targetEdges allSdks edges : Multiset (String × String)) ∧
      ∃ e, eulerTraversalWithHierholzer start allSdks edges = .error e ∧
        e.isValueError = true) := by
  have hover := targetEdges_over allSdks edges
  have hverify := verify_iff_balanced hover
  have hcomps := (decomposed_decomposeIntoComponents hover).prioritize start
  unfold eulerTraversalWithHierholzer
  cases hcheck : verifyEulerianGraph (inDegree (targetEdges allSdks edges))
      (outDegree (targetEdges allSdks edges)) allSdks with
  | error e =>
      right
      refine ⟨fun hb => ?_, e, by simp [hcheck], verifyEulerianGraph_raisesOnly _ _ _ e hcheck⟩
      simp [hverify.mpr hb] at hcheck
  | ok _ =>
      have hbalanced := hverify.mp hcheck
      left
      refine ⟨hbalanced, ?_⟩
      simp only [hcheck, ok_bind]
      split
      · rename_i hempty
        refine ⟨_, rfl, ?_⟩
        have hzero : (targetEdges allSdks edges : Multiset (String × String)) = 0 := by
          refine Multiset.eq_zero_of_forall_notMem fun e he => ?_
          obtain ⟨comp, hcomp, -⟩ := (decomposed_decomposeIntoComponents hover).cover e he
          rw [List.isEmpty_iff.mp hempty] at hcomp
          simp at hcomp
        rw [hzero]
        exact eulerCircuits_zero start
      · rename_i hcompsNe
        have hne : targetEdges allSdks edges ≠ [] := by
          intro hnil
          obtain ⟨comp, hcomp⟩ := List.exists_mem_of_ne_nil _ (mt List.isEmpty_iff.mpr hcompsNe)
          obtain ⟨node, v, -, hedge, -⟩ :=
            (decomposed_decomposeIntoComponents hover).led comp hcomp
          simp [hnil] at hedge
        exact ⟨_, rfl, eulerCircuits_of_decomposed _ hbalanced hne hcomps (le_refl _)⟩

theorem eulerTraversal_spec {start : String} {allSdks : List String}
    {edges : Option (List (String × String))} {circuits : List (List String)}
    (h : eulerTraversalWithHierholzer start allSdks edges = .ok circuits) :
    EulerCircuits (targetEdges allSdks edges : Multiset (String × String)) start circuits := by
  obtain ⟨-, c, hc, hspec⟩ | ⟨-, e, he, -⟩ := eulerTraversal_cases start allSdks edges
  · obtain rfl : c = circuits := Except.ok.inj (hc.symm.trans h)
    exact hspec
  · exact absurd (he.symm.trans h) (by simp)

end Circuits

end A2aItk.Traversal
