import Requisite.Digraph.Basic

/-!
# Topological order

The nodes of a graph are ordered in waves.  The sources are the first wave, and a node joins the
wave after the one that places the last of its predecessors.  Within a wave the nodes are sorted by
a tie-break; nodes that it does not separate stay in the order in which they became ready.

* `Digraph.place` — a wave is placed, and the next one is what becomes ready with it;
* `Digraph.waves` — the nodes that can be placed, wave by wave;
* `Digraph.sort` — all nodes in this order, or the ones that a cycle keeps from being placed.
-/

namespace Requisite.Digraph

open Std

variable {κ ν ε : Type} [Ord κ] [TransOrd κ]

/-- Every node with the number of its predecessors that are not placed yet, and the nodes for the
next wave. -/
structure Progress (κ : Type) [Ord κ] where
  pending : KeyMap κ Nat
  next : List κ

/-- Every node with the number of its predecessors. -/
def inDegrees (g : Digraph κ ν ε) : KeyMap κ Nat :=
  g.vertices.map fun _ v => v.predecessors.size

/-- A node of which one more predecessor is placed joins the next wave with the last one. -/
def release (p : Progress κ) (id : κ) : Progress κ :=
  match p.pending[id]? with
  | none => p
  | some count =>
    { pending := p.pending.insert id (count - 1)
      next := if count - 1 = 0 then p.next ++ [id] else p.next }

/-- The progress once the nodes of a wave are placed, one after the other. -/
def place (g : Digraph κ ν ε) : List κ → Progress κ → Except (Error κ) (Progress κ)
  | [], p => .ok p
  | id :: wave, p =>
    match g.successors id with
    | .error e => .error e
    | .ok ids => place g wave (ids.foldl release p)

/-- Nodes in the order of the tie-break, equal ones as they were. -/
def tieSort (tie : κ → κ → Ordering) (ids : List κ) : List κ :=
  ids.mergeSort fun a b => (tie a b).isLE

/-- At most `count` waves, from `wave` on. -/
def wavesFrom (g : Digraph κ ν ε) (tie : κ → κ → Ordering) :
    (count : Nat) → KeyMap κ Nat → List κ → Except (Error κ) (List (List κ))
  | 0, _, _ => .ok []
  | _ + 1, _, [] => .ok []
  | count + 1, pending, id :: wave =>
    match g.place (id :: wave) ⟨pending, []⟩ with
    | .error e => .error e
    | .ok p =>
      match wavesFrom g tie count p.pending (tieSort tie p.next) with
      | .error e => .error e
      | .ok waves => .ok ((id :: wave) :: waves)

/-- The waves of a graph, of which there are no more than nodes. -/
def waves (g : Digraph κ ν ε) (tie : κ → κ → Ordering) : Except (Error κ) (List (List κ)) :=
  wavesFrom g tie g.size g.inDegrees (tieSort tie g.sources.toList)

/-- The nodes that are not in `order`, in the order of their keys. -/
def missingFrom (g : Digraph κ ν ε) (order : List κ) : List κ :=
  let placed : KeySet κ := ExtTreeSet.ofList order
  g.vertices.keys.filter fun id => !placed.contains id

/-- The nodes ordered so that every edge leads from an earlier node to a later one. -/
def sort (g : Digraph κ ν ε) (tie : κ → κ → Ordering) : Except (Error κ) (List κ) :=
  match g.waves tie with
  | .error e => .error e
  | .ok waves =>
    let order := waves.flatten
    if order.length = g.size then .ok order else .error (.cycle (g.missingFrom order))

end Requisite.Digraph
