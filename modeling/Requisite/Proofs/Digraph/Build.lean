import Requisite.Digraph.Sort
import Requisite.Proofs.Digraph.Content
import Requisite.Proofs.Digraph.Order

/-!
# Graphs from lists

A graph that is built from a list of nodes and a list of edges has the nodes, and those of the edges
that lead from one of them to another one.

* **`Digraph.indexed_ofLists`** — its indexes agree;
* **`Digraph.mem_vertices_ofLists`**, **`Digraph.edge_ofLists_iff`** — its nodes and edges;
* **`Digraph.Indexed.sort_cases`** — it is sorted, or it has a cycle.
-/

namespace Requisite.Digraph

open Std

variable {κ ν ε : Type} [Ord κ] [TransOrd κ] [LawfulEqOrd κ] {g : Digraph κ ν ε}

/-! ### Nodes -/

/-- The graph with some more nodes. -/
def addNodes (g : Digraph κ ν ε) (nodes : List (κ × ν)) : Digraph κ ν ε :=
  nodes.foldl (fun g (id, value) => (g.addNode id value).1) g

theorem Indexed.addNodes (h : g.Indexed) (nodes : List (κ × ν)) : (g.addNodes nodes).Indexed := by
  induction nodes generalizing g with
  | nil => exact h
  | cons n nodes ih => exact ih (h.addNode n.1 n.2)

theorem mem_vertices_addNodes (nodes : List (κ × ν)) (id : κ) :
    id ∈ (g.addNodes nodes).vertices ↔ id ∈ g.vertices ∨ id ∈ nodes.map Prod.fst := by
  induction nodes generalizing g with
  | nil => exact (or_iff_left List.not_mem_nil).symm
  | cons n nodes ih =>
    have hnode : id ∈ (g.addNode n.1 n.2).1.vertices ↔ id = n.1 ∨ id ∈ g.vertices := by
      rw [← mem_values, values_addNode, KeyMap.mem_insert_iff, mem_values]
    rw [List.map_cons, List.mem_cons, ← or_assoc, or_comm (a := id ∈ g.vertices), ← hnode]
    exact ih

omit [LawfulEqOrd κ] in
theorem edges_addNodes (nodes : List (κ × ν)) : (g.addNodes nodes).edges = g.edges := by
  induction nodes generalizing g with
  | nil => rfl
  | cons n nodes ih => exact ih.trans (edges_addNode n.1 n.2)

/-! ### Edges -/

/-- An edge is there afterwards if both of its nodes are, and nothing happens otherwise. -/
theorem link_cases (g : Digraph κ ν ε) (a b : κ) (value : ε) :
    ((a ∈ g.vertices ∧ b ∈ g.vertices) ∧
      (g.link a b value).content = { g.content with edges := g.edges.insert (a, b) value }) ∨
      (¬(a ∈ g.vertices ∧ b ∈ g.vertices) ∧ g.link a b value = g) := by
  unfold link
  rcases addEdge_cases (g := g) a b value with ⟨ha, hg⟩ | ⟨ha, hb, hg⟩ | ⟨ha, hb, g', hg, hcontent⟩
  · rw [hg]
    exact Or.inr ⟨fun h => ha h.1, rfl⟩
  · rw [hg]
    exact Or.inr ⟨fun h => hb h.2, rfl⟩
  · rw [hg]
    exact Or.inl ⟨⟨ha, hb⟩, hcontent⟩

theorem Indexed.link (h : g.Indexed) (a b : κ) (value : ε) : (g.link a b value).Indexed := by
  unfold Digraph.link
  cases hg : g.addEdge a b value with
  | error e => exact h
  | ok p => exact h.addEdge hg

theorem mem_vertices_link (a b : κ) (value : ε) (id : κ) :
    id ∈ (g.link a b value).vertices ↔ id ∈ g.vertices := by
  rcases g.link_cases a b value with ⟨-, hcontent⟩ | ⟨-, hsame⟩
  · have hvalues : (g.link a b value).values = g.values := congrArg Content.values hcontent
    rw [← mem_values, hvalues, mem_values]
  · rw [hsame]

theorem mem_edges_link (a b : κ) (value : ε) (x y : κ) : (x, y) ∈ (g.link a b value).edges ↔
    (x, y) ∈ g.edges ∨ ((x, y) = (a, b) ∧ x ∈ g.vertices ∧ y ∈ g.vertices) := by
  rcases g.link_cases a b value with ⟨hends, hcontent⟩ | ⟨hends, hsame⟩
  · have hedges : (g.link a b value).edges = g.edges.insert (a, b) value :=
      congrArg Content.edges hcontent
    rw [hedges, KeyMap.mem_insert_iff, or_comm]
    refine or_congr_right (iff_self_and.2 fun heq => ?_)
    obtain ⟨rfl, rfl⟩ := Prod.mk.inj heq
    exact hends
  · rw [hsame, or_iff_left]
    intro h
    obtain ⟨heq, hxy⟩ := h
    obtain ⟨rfl, rfl⟩ := Prod.mk.inj heq
    exact hends hxy

/-- The graph with those of some edges whose nodes are there. -/
def linkAll (g : Digraph κ ν ε) (edges : List ((κ × κ) × ε)) : Digraph κ ν ε :=
  edges.foldl (fun g ((a, b), value) => g.link a b value) g

theorem Indexed.linkAll (h : g.Indexed) (edges : List ((κ × κ) × ε)) :
    (g.linkAll edges).Indexed := by
  induction edges generalizing g with
  | nil => exact h
  | cons e edges ih => exact ih (h.link e.1.1 e.1.2 e.2)

theorem mem_vertices_linkAll (edges : List ((κ × κ) × ε)) (id : κ) :
    id ∈ (g.linkAll edges).vertices ↔ id ∈ g.vertices := by
  induction edges generalizing g with
  | nil => exact Iff.rfl
  | cons e edges ih => exact ih.trans (mem_vertices_link e.1.1 e.1.2 e.2 id)

theorem mem_edges_linkAll (edges : List ((κ × κ) × ε)) (x y : κ) :
    (x, y) ∈ (g.linkAll edges).edges ↔
      (x, y) ∈ g.edges ∨ ((x, y) ∈ edges.map Prod.fst ∧ x ∈ g.vertices ∧ y ∈ g.vertices) := by
  induction edges generalizing g with
  | nil => exact (or_iff_left fun h => List.not_mem_nil h.1).symm
  | cons e edges ih =>
    have hrest := ih (g := g.link e.1.1 e.1.2 e.2)
    rw [mem_edges_link, mem_vertices_link, mem_vertices_link] at hrest
    rw [List.map_cons, List.mem_cons, or_and_right, ← or_assoc]
    exact hrest

/-! ### The graph of two lists -/

omit [LawfulEqOrd κ] in
theorem ofLists_eq (nodes : List (κ × ν)) (edges : List ((κ × κ) × ε)) :
    (ofLists nodes edges : Digraph κ ν ε) = ((∅ : Digraph κ ν ε).addNodes nodes).linkAll edges :=
  rfl

theorem indexed_ofLists (nodes : List (κ × ν)) (edges : List ((κ × κ) × ε)) :
    (ofLists nodes edges : Digraph κ ν ε).Indexed :=
  (indexed_empty.addNodes nodes).linkAll edges

theorem mem_vertices_ofLists (nodes : List (κ × ν)) (edges : List ((κ × κ) × ε)) (id : κ) :
    id ∈ (ofLists nodes edges : Digraph κ ν ε).vertices ↔ id ∈ nodes.map Prod.fst := by
  rw [ofLists_eq, mem_vertices_linkAll, mem_vertices_addNodes, or_iff_right]
  exact ExtTreeMap.not_mem_empty

theorem edge_ofLists_iff (nodes : List (κ × ν)) (edges : List ((κ × κ) × ε)) (a b : κ) :
    (ofLists nodes edges : Digraph κ ν ε).Edge a b ↔
      (a, b) ∈ edges.map Prod.fst ∧ a ∈ nodes.map Prod.fst ∧ b ∈ nodes.map Prod.fst := by
  have hvertices : ∀ id, id ∈ ((∅ : Digraph κ ν ε).addNodes nodes).vertices ↔
      id ∈ nodes.map Prod.fst := by
    intro id
    exact (mem_vertices_addNodes nodes id).trans (or_iff_right ExtTreeMap.not_mem_empty)
  rw [Edge, ofLists_eq, mem_edges_linkAll, edges_addNodes, hvertices, hvertices, or_iff_right]
  exact ExtTreeMap.not_mem_empty

/-- A graph whose indexes agree has an order of all its nodes, each after its predecessors, if it
has no cycle; and if it has one, a cycle is the error. -/
theorem Indexed.sort_cases (h : g.Indexed) (tie : κ → κ → Ordering) :
    (g.Acyclic ∧ ∃ order, g.sort tie = .ok order ∧ order.Nodup ∧
      (∀ id, id ∈ order ↔ id ∈ g.vertices) ∧ ∀ a b, g.Edge a b → [a, b].Sublist order) ∨
    (¬g.Acyclic ∧ ∃ unreached, g.sort tie = .error (.cycle unreached)) := by
  obtain ⟨waves, hwaves, -, hplaces⟩ := waves_places h tie
  rcases sort_of_places hwaves hplaces h with ⟨hacyclic, hsort⟩ | ⟨hcyclic, hsort⟩
  · have hmem : ∀ id, id ∈ waves.flatten ↔ id ∈ g.vertices := fun id =>
      (hplaces.mem_iff h).trans (and_iff_left (acyclic_iff_not_belowCycle.1 hacyclic id))
    refine Or.inl ⟨hacyclic, _, hsort, hplaces.nodup, hmem, fun a b hab => ?_⟩
    have hb : b ∈ waves.flatten := (hmem b).2 (h.ends_mem a b hab).2
    exact (hplaces.sublist hab hb).resolve_left ExtTreeSet.not_mem_empty
  · exact Or.inr ⟨hcyclic, _, hsort⟩

end Requisite.Digraph
