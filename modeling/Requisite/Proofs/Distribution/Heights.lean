import Requisite.Proofs.Digraph.WaveOrder
import Requisite.Proofs.Distribution.Resolution

/-!
# The order of installation

The height of an installed name is the length of the longest chain of installed names below it, each
one needed by the next.  In the graph that is sorted every edge is turned round, so that a height
there is a depth; and as names are sorted by themselves, no two of them are left to be told apart.

* **`Digraph.Indexed.eq_of_edges`** — a graph without values is its nodes and edges;
* **`DistributionGraph.connect_eq_ok`** — of the edges that are added none is refused;
* **`DistributionGraph.installOrder_congr`** — nothing counts but the installed names and the edges
  between them;
* **`DistributionGraph.installOrder_by_height`** — the names are sorted by height, then by
  themselves, or they depend on each other in a circle.
-/

open Relation

namespace Requisite

open Std

namespace Digraph

variable {κ ν ε : Type} [Ord κ] [TransOrd κ] {g : Digraph κ ν ε}

/-! ### Edges that are not refused -/

/-- The graph with an edge if both of its nodes are there.  A refusal would be the error. -/
def connect (g : Digraph κ ν ε) (e : (κ × κ) × ε) : Except (Error κ) (Digraph κ ν ε) :=
  if g.containsNode e.1.1 && g.containsNode e.1.2 then
    (g.addEdge e.1.1 e.1.2 e.2).map Prod.fst
  else .ok g

/-- The edge is not refused. -/
theorem connect_eq_ok (g : Digraph κ ν ε) (e : (κ × κ) × ε) :
    g.connect e = .ok (g.link e.1.1 e.1.2 e.2) := by
  obtain ⟨⟨a, b⟩, value⟩ := e
  unfold connect link addEdge containsNode
  cases g.vertices.contains a <;> cases g.vertices.contains b <;> rfl

theorem foldlM_connect (g : Digraph κ ν ε) (edges : List ((κ × κ) × ε)) :
    edges.foldlM connect g = .ok (g.linkAll edges) := by
  induction edges generalizing g with
  | nil => rfl
  | cons e edges ih =>
    rw [List.foldlM_cons, connect_eq_ok]
    exact ih _

variable [LawfulEqOrd κ]

/-- A graph without values is given by its nodes and edges. -/
theorem Indexed.eq_of_edges {g g' : Digraph κ Unit Unit} (h : g.Indexed) (h' : g'.Indexed)
    (hnodes : ∀ id, id ∈ g.vertices ↔ id ∈ g'.vertices)
    (hedges : ∀ a b, g.Edge a b ↔ g'.Edge a b) : g = g' := by
  refine h.eq_of_content h' (Content.ext ?_ ?_)
  · refine KeyMap.eq_of_mem fun id => ?_
    rw [content, content, mem_values, mem_values, hnodes]
  · exact KeyMap.eq_of_mem fun p => hedges p.1 p.2

end Digraph

namespace DistributionGraph

variable {g : DistributionGraph}

/-! ### Heights -/

/-- The longest chain of installed names below a name has `k` steps. -/
def Height (g : DistributionGraph) (name : String) (k : Nat) : Prop :=
  LongestChain (Function.swap g.Needs) k name

/-- A name is less high than another one, or as high and the smaller of the two. -/
def Lower (g : DistributionGraph) (a b : String) : Prop :=
  ∃ i j, g.Height a i ∧ g.Height b j ∧ (i < j ∨ i = j ∧ compare a b = .lt)

/-- The installed names, each once, by height and then by themselves. -/
structure ByHeight (g : DistributionGraph) (order : List String) : Prop where
  mem_iff (n : String) : n ∈ order ↔ n ∈ g.distributions
  pairwise : order.Pairwise g.Lower

/-- In the graph that is sorted a height is a depth. -/
theorem depth_installed_iff (n : String) (k : Nat) : g.installed.Depth n k ↔ g.Height n k := by
  rw [Digraph.Depth, edge_installed]
  rfl

theorem Lower.asymm {a b : String} (h : g.Lower a b) : ¬g.Lower b a := by
  intro h'
  obtain ⟨i, j, ha, hb, hij⟩ := h
  obtain ⟨j', i', hb', ha', hji⟩ := h'
  obtain rfl := ha.unique ha'
  obtain rfl := hb.unique hb'
  rcases hij with hij | ⟨heq, hlt⟩
  · omega
  · exact OrientedCmp.not_lt_of_lt hlt (hji.resolve_left (by omega)).2

theorem ByHeight.nodup {order : List String} (h : g.ByHeight order) : order.Nodup :=
  h.pairwise.imp fun hab heq => by
    subst heq
    exact hab.asymm hab

/-- There is one order by height at most. -/
theorem ByHeight.unique {order order' : List String} (h : g.ByHeight order)
    (h' : g.ByHeight order') : order = order' :=
  Digraph.eq_of_pairwise h.nodup h'.nodup (fun n => (h.mem_iff n).trans (h'.mem_iff n).symm)
    (fun _ _ hab => hab.asymm) h.pairwise h'.pairwise

/-- What comes by height comes after everything that it needs. -/
theorem ByHeight.orders {order : List String} (h : g.ByHeight order)
    (hheight : ∀ n ∈ g.distributions, ∃ k, g.Height n k) : g.Orders order := by
  refine ⟨h.nodup, h.mem_iff, fun a b hab => ?_⟩
  obtain ⟨i, hi⟩ := hheight a hab.1
  obtain ⟨j, hj⟩ := hheight b hab.2.1
  have hlower : g.Lower b a := ⟨j, i, hj, hi, Or.inl (hj.lt hi hab)⟩
  have hne : b ≠ a := by
    intro heq
    subst heq
    exact hlower.asymm hlower
  exact Digraph.pair_sublist_of_pairwise h.pairwise ((h.mem_iff b).2 hab.2.1)
    ((h.mem_iff a).2 hab.1) hne hlower.asymm

/-- An order of waves that breaks ties by name is one by height. -/
theorem byHeight_of_waveOrder {order : List String} (h : g.installed.WaveOrder compare order) :
    g.ByHeight order := by
  refine ⟨fun n => (h.mem_iff n).trans (mem_vertices_installed n), ?_⟩
  refine (h.pairwise.and h.nodup).imp fun {a b} hab => ?_
  obtain ⟨⟨i, j, ha, hb, hij⟩, hne⟩ := hab
  refine ⟨i, j, (depth_installed_iff a i).1 ha, (depth_installed_iff b j).1 hb, ?_⟩
  refine hij.imp_right (And.imp_right fun htie => htie.resolve_right fun heq => ?_)
  exact hne (LawfulEqOrd.eq_of_compare heq.1)

/-! ### What the order depends on -/

/-- The graph that is sorted, as it is built edge by edge.  The refusal of an edge would be the
error. -/
def connected (g : DistributionGraph) : Except (Digraph.Error String) (Digraph String Unit Unit) :=
  g.upward.foldlM Digraph.connect ((∅ : Digraph String Unit Unit).addNodes
    (g.distributions.keys.map fun name => (name, ())))

/-- No edge is refused. -/
theorem connected_eq_ok (g : DistributionGraph) : g.connected = .ok g.installed :=
  Digraph.foldlM_connect _ _

/-- Distributions without an edge between them, and names without one, make no difference. -/
theorem installOrder_congr {g' : DistributionGraph}
    (hnames : ∀ n, n ∈ g'.distributions ↔ n ∈ g.distributions)
    (hneeds : ∀ a b, g'.Needs a b ↔ g.Needs a b) : g'.installOrder = g.installOrder := by
  have hsame : g'.installed = g.installed := by
    refine g'.indexed_installed.eq_of_edges g.indexed_installed (fun n => ?_) fun b a => ?_
    · rw [mem_vertices_installed, mem_vertices_installed, hnames]
    · rw [edge_installed_iff, edge_installed_iff, hneeds]
  rw [installOrder, installOrder, hsame]

/-! ### The order -/

theorem exists_height (h : ¬g.Circular) : ∀ n ∈ g.distributions, ∃ k, g.Height n k := by
  intro n hn
  obtain ⟨k, hk⟩ := g.indexed_installed.exists_depth (acyclic_installed_iff.2 h) n
    ((mem_vertices_installed n).2 hn)
  exact ⟨k, (depth_installed_iff n k).1 hk⟩

/-- Without a circle the installed names are ordered by height. -/
theorem exists_byHeight (h : ¬g.Circular) :
    ∃ order, g.installOrder = .ok order ∧ g.ByHeight order := by
  obtain ⟨order, hsort, hwaves⟩ :=
    g.indexed_installed.exists_waveOrder compare (acyclic_installed_iff.2 h)
  exact ⟨order, hsort, byHeight_of_waveOrder hwaves⟩

/-- A circle is refused as one. -/
theorem installOrder_of_circular (h : g.Circular) :
    ∃ unreached, g.installOrder = .error (.cycle unreached) :=
  ((g.indexed_installed.sort_cases compare).resolve_left fun hacyclic =>
    acyclic_installed_iff.1 hacyclic.1 h).2

theorem installOrder_eq_ok_iff {order : List String} :
    g.installOrder = .ok order ↔ ¬g.Circular ∧ g.ByHeight order := by
  by_cases hcircular : g.Circular
  · obtain ⟨unreached, herror⟩ := installOrder_of_circular hcircular
    rw [herror]
    exact iff_of_false nofun fun h => h.1 hcircular
  · obtain ⟨sorted, hsorted, hby⟩ := exists_byHeight hcircular
    rw [hsorted, Except.ok.injEq, and_iff_right hcircular]
    constructor
    · exact fun heq => heq ▸ hby
    · exact hby.unique

/-- Whatever a graph has in its parts, its installed names are ordered exactly if they do not need
each other in a circle, and then by height and by name, each after everything that it needs.  A
circle is the only error, and nothing counts but which names are installed and which of them need
which. -/
theorem installOrder_by_height (g : DistributionGraph) :
    ((∃ order, g.installOrder = .ok order) ↔ ¬g.Circular) ∧
      (∀ order, g.installOrder = .ok order ↔ ¬g.Circular ∧ g.ByHeight order) ∧
      (∀ order, g.installOrder = .ok order →
        g.Orders order ∧ ∀ n ∈ g.distributions, ∃ k, g.Height n k) ∧
      g.connected = .ok g.installed ∧
      (∀ e, g.installOrder = .error e → ∃ unreached, e = .cycle unreached) ∧
      ∀ g' : DistributionGraph, (∀ n, n ∈ g'.distributions ↔ n ∈ g.distributions) →
        (∀ a b, g'.Needs a b ↔ g.Needs a b) → g'.installOrder = g.installOrder := by
  refine ⟨?_, fun order => installOrder_eq_ok_iff, fun order horder => ?_, g.connected_eq_ok,
    fun e he => ?_, fun g' => installOrder_congr⟩
  · constructor
    · intro h
      obtain ⟨order, horder⟩ := h
      exact (installOrder_eq_ok_iff.1 horder).1
    · intro h
      obtain ⟨order, horder, -⟩ := exists_byHeight h
      exact ⟨order, horder⟩
  · obtain ⟨hcircular, hby⟩ := installOrder_eq_ok_iff.1 horder
    exact ⟨hby.orders (exists_height hcircular), exists_height hcircular⟩
  · have hcircular : g.Circular := by
      by_contra h
      obtain ⟨order, horder, -⟩ := exists_byHeight h
      nomatch he.symm.trans horder
    obtain ⟨unreached, herror⟩ := installOrder_of_circular hcircular
    exact ⟨unreached, Except.error.inj (he.symm.trans herror)⟩

/-- Edges from and to names that are not installed, a missing name that is, and one edge that
counts. -/
def dangling : DistributionGraph where
  distributions := ExtTreeMap.ofList (["app", "lib"].map fun name =>
    (name, ({ name, version := "1.0" } : Distribution)))
  dependencies := ExtTreeMap.ofList [("app", ExtTreeSet.ofList ["gone", "lib"]),
    ("ghost", ExtTreeSet.ofList ["app", "ghost"])]
  missing := ExtTreeSet.ofList ["lib"]

/-- Of the edges only the one that counts makes a difference; and a circle is refused. -/
theorem installOrder_dangling :
    dangling.installOrder = .ok ["lib", "app"] ∧ dangling.ByHeight ["lib", "app"] ∧
      dangling.Orders ["lib", "app"] ∧ ¬∃ order, circleGraph.installOrder = .ok order := by
  have horder : dangling.installOrder = .ok ["lib", "app"] := by
    decide +kernel
  obtain ⟨-, hiff, hok, -⟩ := dangling.installOrder_by_height
  obtain ⟨hcircle, -⟩ := circleGraph.installOrder_by_height
  exact ⟨horder, ((hiff _).1 horder).2, (hok _ horder).1, fun h => hcircle.1 h circleGraph_circular⟩

end DistributionGraph

end Requisite
