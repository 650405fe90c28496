import A2aItk.Multigraph.Search
import A2aItk.Multigraph.Tour
import A2aItk.Python.Exceptions
import Mathlib.Logic.Function.Basic

/-!
# Euler circuits over a scenario's agents

The traversal of `test_suite/__init__.py`: build the target edges, check the
balance of every node, split the graph into components and walk each with
Hierholzer's algorithm.

## Implementation notes

A dict keyed by the agents is a function. The sets of `undirected_adj` are
lists without repeats: their order decides in which order a component is
collected and nothing else, since only its first node and its members are read.
-/

namespace A2aItk.Traversal

open Python (PyError)
open Multigraph

/-- The edges to traverse: the given ones, or the complete digraph when there
are none to be given. -/
def targetEdges (allSdks : List String) (edges : Option (List (String × String))) :
    List (String × String) :=
  match edges with
  | some (e :: es) => (e :: es).filter fun p => p.1 ∈ allSdks && p.2 ∈ allSdks
  | _ => allSdks.flatMap fun u => (allSdks.filter (u ≠ ·)).map fun v => (u, v)

/-- The successors of a node, in the order of the edges. -/
def adjacency (edges : List (String × String)) : String → List String :=
  edges.foldl (fun adj e => Function.update adj e.1 (adj e.1 ++ [e.2])) fun _ => []

/-- How many edges leave a node. -/
def outDegree (edges : List (String × String)) : String → Nat :=
  edges.foldl (fun d e => Function.update d e.1 (d e.1 + 1)) fun _ => 0

/-- How many edges enter a node. -/
def inDegree (edges : List (String × String)) : String → Nat :=
  edges.foldl (fun d e => Function.update d e.2 (d e.2 + 1)) fun _ => 0

/-- `_verify_eulerian_graph`: the first node out of balance is named. -/
def verifyEulerianGraph (inDegree outDegree : String → Nat) (allSdks : List String) :
    Except PyError Unit :=
  forM allSdks fun node =>
    if inDegree node ≠ outDegree node then
      throw (.valueError
        (s!"Eulerian cycle impossible: Node '{node}' has in-degree={inDegree node} and " ++
          s!"out-degree={outDegree node}."))
    else pure ()

/-- Add each of two nodes to the neighbours of the other. -/
def link (u : String) (neighbors : String → List String) (v : String) :
    String → List String :=
  let outward := Function.update neighbors u (List.insert v (neighbors u))
  Function.update outward v (List.insert u (outward v))

/-- Both directions of every edge, each neighbour once. -/
def undirectedAdj (allSdks : List String) (adj : String → List String) :
    String → List String :=
  allSdks.foldl (fun neighbors u => (adj u).foldl (link u) neighbors) fun _ => []

/-- One component for each node no earlier component has reached. -/
def components (neighbors : String → List String) (fuel : Nat) :
    List String → List String → List (List String)
  | [], _ => []
  | node :: rest, visited =>
      if node ∈ visited then components neighbors fuel rest visited
      else
        let component := Search.explore neighbors fuel [node] [node] []
        component :: components neighbors fuel rest (visited ++ component)

/-- `_decompose_into_components`: the nodes with edges, grouped by connectedness. -/
def decomposeIntoComponents (allSdks nodesWithEdges : List String)
    (adj : String → List String) : List (List String) :=
  components (undirectedAdj allSdks adj) (allSdks.length + 1) nodesWithEdges []

/-- The loop of Hierholzer's algorithm: follow the last edge of the top of the
stack, or move the top to the circuit. -/
def hierholzer : Nat → (String → List String) → List String → List String →
    (String → List String) × List String
  | 0, adj, _, circuit => (adj, circuit)
  | _ + 1, adj, [], circuit => (adj, circuit)
  | fuel + 1, adj, u :: stack, circuit =>
      match (adj u).getLast? with
      | some v =>
          hierholzer fuel (Function.update adj u (adj u).dropLast) (v :: u :: stack) circuit
      | none => hierholzer fuel adj stack (circuit ++ [u])

/-- One circuit a component, from `currentSdk` where the component has it. The
adjacency lists are consumed from one component to the next. -/
def circuitsOf (currentSdk : String) (fuel : Nat) :
    List (List String) → (String → List String) → List (List String)
  | [], _ => []
  | comp :: rest, adj =>
      let startNode := if currentSdk ∈ comp then currentSdk else comp.headD currentSdk
      let toured := hierholzer fuel adj [startNode] []
      toured.2.reverse :: circuitsOf currentSdk fuel rest toured.1

/-- A stable sort on whether the component lacks `currentSdk`. -/
def prioritize (currentSdk : String) (comps : List (List String)) : List (List String) :=
  comps.filter (currentSdk ∈ ·) ++ comps.filter (currentSdk ∉ ·)

/-- `euler_traversal_with_hierholzer`: a closed circuit for each component, that of the first
agent in front. -/
def eulerTraversalWithHierholzer (currentSdk : String) (allSdks : List String)
    (edges : Option (List (String × String))) : Except PyError (List (List String)) := do
  let target := targetEdges allSdks edges
  let adj := adjacency target
  verifyEulerianGraph (inDegree target) (outDegree target) allSdks
  let nodesWithEdges := allSdks.filter fun n => outDegree target n > 0
  let comps := decomposeIntoComponents allSdks nodesWithEdges adj
  if comps.isEmpty then return [[currentSdk]]
  -- Every edge is pushed once and popped once, and the start once.
  return circuitsOf currentSdk (2 * target.length + 1) (prioritize currentSdk comps) adj

example : eulerTraversalWithHierholzer "a" ["a", "b", "c"]
    (some [("a", "b"), ("b", "a"), ("a", "c"), ("c", "a")]) =
      .ok [["a", "c", "a", "b", "a"]] := by decide

end A2aItk.Traversal
