import Std.Data.ExtTreeMap
import Std.Data.ExtTreeSet
import Requisite.Text.Shape

/-!
# Directed graphs

A graph has nodes with values, and edges with values between pairs of nodes.  Next to the edges
it keeps the predecessors and successors of every node, the sources (nodes without predecessors)
and the sinks (nodes without successors), and every operation maintains them.

* `Digraph.addNode`, `Digraph.addEdge`, `Digraph.removeNode`, `Digraph.removeEdge` — the
  operations that change a graph, each with the value that was there before;
* `Digraph.nodes`, `Digraph.edgeList` — the content of a graph in the order of its keys;
* `Digraph.ofLists` — the graph of some nodes and those of some edges whose ends are among them;
* `Digraph.Error` — the operations that name a node or an edge which is not there.
-/

namespace Requisite

open Std

/-- A finite set in the order of its members. -/
abbrev KeySet (κ : Type) [Ord κ] := ExtTreeSet κ compare

/-- A finite map in the order of its keys. -/
abbrev KeyMap (κ : Type) [Ord κ] (β : Type) := ExtTreeMap κ β compare

/-- The order of pairs: by the first component, then by the second. -/
def comparePairs {κ : Type} [Ord κ] : κ × κ → κ × κ → Ordering :=
  compareLex (compareOn Prod.fst) (compareOn Prod.snd)

instance {κ : Type} [Ord κ] [TransOrd κ] : TransCmp (comparePairs (κ := κ)) :=
  inferInstanceAs (TransCmp (compareLex (compareOn Prod.fst) (compareOn Prod.snd)))

instance {κ : Type} [Ord κ] [LawfulEqOrd κ] : LawfulEqCmp (comparePairs (κ := κ)) where
  compare_self := by simp [comparePairs, compareLex, compareOn]
  eq_of_compare {a b} h := by
    simp only [comparePairs, compareLex, compareOn, Ordering.then_eq_eq, Std.compare_eq_iff_eq]
      at h
    exact Prod.ext h.1 h.2

/-- A node with its value and its neighbours. -/
structure Vertex (κ ν : Type) [Ord κ] where
  value : ν
  predecessors : KeySet κ
  successors : KeySet κ

/-- A directed graph with keys `κ`, node values `ν` and edge values `ε`. -/
structure Digraph (κ ν ε : Type) [Ord κ] where
  vertices : KeyMap κ (Vertex κ ν)
  edges : ExtTreeMap (κ × κ) ε comparePairs
  sources : KeySet κ
  sinks : KeySet κ

namespace Digraph

variable {κ ν ε : Type} [Ord κ] [TransOrd κ]

/-- Why an operation was refused. -/
inductive Error (κ : Type)
  | unknownNode (id : κ)
  | unknownEdge (a b : κ)
  /-- An order was asked for and there is none: these nodes cannot be placed. -/
  | cycle (unreached : List κ)
  deriving DecidableEq, Repr

/-- The wording of a refusal, with the keys as `quote` shows them. -/
def Error.message (quote : κ → String) : Error κ → String
  | .unknownNode id => "unknown node: " ++ quote id
  | .unknownEdge a b => "unknown edge: " ++ quote a ++ " -> " ++ quote b
  | .cycle unreached =>
    "cycle detected, unreached nodes: " ++ Text.bracketed (unreached.map quote)

/-- The graph without nodes. -/
def empty : Digraph κ ν ε := ⟨∅, ∅, ∅, ∅⟩

instance : EmptyCollection (Digraph κ ν ε) := ⟨empty⟩

/-! ### Changing a graph -/

/-- The graph with a node, and the node's value before.  A node that is there already keeps its
edges. -/
def addNode (g : Digraph κ ν ε) (id : κ) (value : ν) : Digraph κ ν ε × Option ν :=
  match g.vertices[id]? with
  | some v => ({ g with vertices := g.vertices.insert id { v with value } }, some v.value)
  | none =>
    ({ vertices := g.vertices.insert id ⟨value, ∅, ∅⟩
       edges := g.edges
       sources := g.sources.insert id
       sinks := g.sinks.insert id }, none)

/-- The graph with an edge, and the edge's value before.  Both nodes have to be there. -/
def addEdge (g : Digraph κ ν ε) (a b : κ) (value : ε) :
    Except (Error κ) (Digraph κ ν ε × Option ε) :=
  if !g.vertices.contains a then .error (.unknownNode a)
  else if !g.vertices.contains b then .error (.unknownNode b)
  else
    .ok ({ vertices := (g.vertices.modify a fun v => { v with successors := v.successors.insert b })
             |>.modify b fun v => { v with predecessors := v.predecessors.insert a }
           edges := g.edges.insert (a, b) value
           sources := g.sources.erase b
           sinks := g.sinks.erase a }, g.edges[(a, b)]?)

/-- The edge from `a` to `b` is taken off `a`, which becomes a sink with its last one. -/
def dropSuccessor (g : Digraph κ ν ε) (a b : κ) : Digraph κ ν ε :=
  match g.vertices[a]? with
  | none => g
  | some v =>
    let successors := v.successors.erase b
    { g with
      vertices := g.vertices.insert a { v with successors }
      sinks := if successors.isEmpty then g.sinks.insert a else g.sinks }

/-- The edge from `a` to `b` is taken off `b`, which becomes a source with its last one. -/
def dropPredecessor (g : Digraph κ ν ε) (a b : κ) : Digraph κ ν ε :=
  match g.vertices[b]? with
  | none => g
  | some v =>
    let predecessors := v.predecessors.erase a
    { g with
      vertices := g.vertices.insert b { v with predecessors }
      sources := if predecessors.isEmpty then g.sources.insert b else g.sources }

/-- The binding of an edge is deleted. -/
def dropEdge (g : Digraph κ ν ε) (a b : κ) : Digraph κ ν ε :=
  { g with edges := g.edges.erase (a, b) }

/-- The graph without a node and its edges, and the node's value. -/
def removeNode (g : Digraph κ ν ε) (id : κ) : Except (Error κ) (Digraph κ ν ε × ν) :=
  match g.vertices[id]? with
  | none => .error (.unknownNode id)
  | some v =>
    let g := { g with vertices := g.vertices.erase id }
    let g := v.predecessors.toList.foldl (fun g a => (g.dropEdge a id).dropSuccessor a id) g
    let g := v.successors.toList.foldl (fun g b => (g.dropEdge id b).dropPredecessor id b) g
    .ok ({ g with sources := g.sources.erase id, sinks := g.sinks.erase id }, v.value)

/-- The graph without an edge, and the edge's value. -/
def removeEdge (g : Digraph κ ν ε) (a b : κ) : Except (Error κ) (Digraph κ ν ε × ε) :=
  match g.edges[(a, b)]? with
  | none => .error (.unknownEdge a b)
  | some value => .ok (((g.dropEdge a b).dropSuccessor a b).dropPredecessor a b, value)

/-- The graph with the value of a node changed, and the new value. -/
def modifyNode (g : Digraph κ ν ε) (id : κ) (f : ν → ν) :
    Except (Error κ) (Digraph κ ν ε × ν) :=
  match g.vertices[id]? with
  | none => .error (.unknownNode id)
  | some v =>
    .ok ({ g with vertices := g.vertices.insert id { v with value := f v.value } }, f v.value)

/-! ### Asking a graph -/

/-- A node is there. -/
def containsNode (g : Digraph κ ν ε) (id : κ) : Bool :=
  g.vertices.contains id

/-- An edge is there. -/
def containsEdge (g : Digraph κ ν ε) (a b : κ) : Bool :=
  g.edges.contains (a, b)

/-- The vertex of a node. -/
def vertex (g : Digraph κ ν ε) (id : κ) : Except (Error κ) (Vertex κ ν) :=
  match g.vertices[id]? with
  | none => .error (.unknownNode id)
  | some v => .ok v

/-- The value of a node. -/
def node (g : Digraph κ ν ε) (id : κ) : Except (Error κ) ν :=
  (g.vertex id).map Vertex.value

/-- The value of an edge. -/
def edge (g : Digraph κ ν ε) (a b : κ) : Except (Error κ) ε :=
  match g.edges[(a, b)]? with
  | none => .error (.unknownEdge a b)
  | some value => .ok value

/-- The nodes with an edge to a node, in the order of their keys. -/
def predecessors (g : Digraph κ ν ε) (id : κ) : Except (Error κ) (List κ) :=
  (g.vertex id).map fun v => v.predecessors.toList

/-- The nodes with an edge from a node, in the order of their keys. -/
def successors (g : Digraph κ ν ε) (id : κ) : Except (Error κ) (List κ) :=
  (g.vertex id).map fun v => v.successors.toList

/-- The nodes with their values, in the order of their keys. -/
def nodes (g : Digraph κ ν ε) : List (κ × ν) :=
  g.vertices.toList.map fun (id, v) => (id, v.value)

/-- The edges with their values, in the order of their keys. -/
def edgeList (g : Digraph κ ν ε) : List ((κ × κ) × ε) :=
  g.edges.toList

/-- The number of nodes. -/
def size (g : Digraph κ ν ε) : Nat :=
  g.vertices.size

/-- The number of edges. -/
def edgeCount (g : Digraph κ ν ε) : Nat :=
  g.edges.size

/-- A graph without nodes. -/
def isEmpty (g : Digraph κ ν ε) : Bool :=
  g.vertices.isEmpty

/-! ### Graphs from lists -/

/-- The graph with an edge, if both of its nodes are there. -/
def link (g : Digraph κ ν ε) (a b : κ) (value : ε) : Digraph κ ν ε :=
  match g.addEdge a b value with
  | .ok (g, _) => g
  | .error _ => g

/-- The graph of `nodes` and the edges between them. -/
def ofLists (nodes : List (κ × ν)) (edges : List ((κ × κ) × ε)) : Digraph κ ν ε :=
  let g : Digraph κ ν ε := nodes.foldl (fun g (id, value) => (g.addNode id value).1) ∅
  edges.foldl (fun g ((a, b), value) => g.link a b value) g

end Digraph

end Requisite
