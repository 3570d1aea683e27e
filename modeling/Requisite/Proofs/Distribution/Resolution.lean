import Requisite.Distribution.Resolution
import Requisite.Proofs.Digraph.Build
import Requisite.Proofs.Distribution.Findings
import Requisite.Proofs.Distribution.Unfolding

/-!
# Resolving declared dependencies

What the declared names lead to is installed or missing, as the source says.  In strict mode the
missing names are the error, if there are any, be there a circle among the installed ones or not;
otherwise a circle is; and without one the installed names are ordered.

* **`Closure.Ends.tells`** — the graph has what the source says;
* **`DistributionGraph.edge_installed_iff`** — what is sorted are the edges between installed names,
  each turned round;
* **`Source.resolve_orders_or_refuses`** — which of the three it is, and what it says.
-/

open Relation

namespace Requisite

open Std

namespace DistributionGraph

/-! ### What is reached, and what is ordered -/

/-- A name that a declared dependency asks for leads to another one. -/
def Reached (g : DistributionGraph) (env : Environment) (ds : List Dependency) (n : String) :
    Prop :=
  ∃ d ∈ ds, ∃ root extras, Closure.AsksFor env d root extras ∧ ReflTransGen g.DependsOn root n

/-- A name depends on another one, and both are installed. -/
def Needs (g : DistributionGraph) (a b : String) : Prop :=
  a ∈ g.distributions ∧ b ∈ g.distributions ∧ g.DependsOn a b

/-- Some installed name depends on itself, over others that are installed. -/
def Circular (g : DistributionGraph) : Prop :=
  ∃ n, TransGen g.Needs n n

/-- An order has every installed name once, and after each installed name that it depends on. -/
structure Orders (g : DistributionGraph) (order : List String) : Prop where
  nodup : order.Nodup
  mem_iff (n : String) : n ∈ order ↔ n ∈ g.distributions
  after (a b : String) : g.Needs a b → [b, a].Sublist order

variable {g : DistributionGraph} {env : Environment} {ds : List Dependency}

theorem Reached.tail {a b : String} (h : g.Reached env ds a) (hab : g.DependsOn a b) :
    g.Reached env ds b := by
  obtain ⟨d, hd, root, extras, hasks, hreach⟩ := h
  exact ⟨d, hd, root, extras, hasks, hreach.tail hab⟩

/-- A graph that closes what is declared has the names that are reached in it. -/
theorem Closes.has_iff (h : g.Closes env ds) (n : String) : g.Has n ↔ g.Reached env ds n := by
  constructor
  · exact h.reachable n
  · intro hn
    obtain ⟨d, hd, root, extras, hasks, hreach⟩ := hn
    induction hreach with
    | refl => exact h.declared d root extras hd hasks
    | tail _ hab _ => exact h.closed _ _ hab

theorem Closes.mem_missing_iff (h : g.Closes env ds) (n : String) :
    n ∈ g.missing ↔ g.Reached env ds n ∧ n ∉ g.distributions := by
  rw [← h.has_iff]
  constructor
  · intro hn
    exact ⟨Or.inr hn, fun hinstalled => h.disjoint n hinstalled hn⟩
  · intro hn
    exact hn.1.resolve_left hn.2

/-! ### The graph that is sorted -/

theorem mem_upward {a b : String} : (b, a) ∈ g.upward.map Prod.fst ↔ g.DependsOn a b := by
  rw [upward, List.mem_map]
  constructor
  · intro h
    obtain ⟨e, he, heq⟩ := h
    obtain ⟨⟨dependent, names⟩, hmem, he⟩ := List.mem_flatMap.1 he
    obtain ⟨name, hname, he⟩ := List.mem_map.1 he
    subst he
    obtain ⟨rfl, rfl⟩ := Prod.mk.inj heq
    exact ⟨names, ExtTreeMap.mem_toList_iff_getElem?_eq_some.1 hmem, ExtTreeSet.mem_toList.1 hname⟩
  · intro h
    obtain ⟨names, hnames, hb⟩ := h
    refine ⟨((b, a), ()), List.mem_flatMap.2 ⟨(a, names), ?_, ?_⟩, rfl⟩
    · exact ExtTreeMap.mem_toList_iff_getElem?_eq_some.2 hnames
    · exact List.mem_map.2 ⟨b, ExtTreeSet.mem_toList.2 hb, rfl⟩

theorem mem_nodes (n : String) :
    n ∈ (g.distributions.keys.map fun name => (name, ())).map Prod.fst ↔ n ∈ g.distributions := by
  rw [List.map_map]
  show n ∈ g.distributions.keys.map id ↔ n ∈ g.distributions
  rw [List.map_id, ExtTreeMap.mem_keys]

theorem indexed_installed (g : DistributionGraph) : g.installed.Indexed :=
  Digraph.indexed_ofLists _ _

theorem mem_vertices_installed (n : String) : n ∈ g.installed.vertices ↔ n ∈ g.distributions := by
  rw [installed, Digraph.mem_vertices_ofLists, mem_nodes]

/-- The graph that is sorted has the edges between installed names, each turned round. -/
theorem edge_installed_iff (a b : String) : g.installed.Edge b a ↔ g.Needs a b := by
  rw [installed, Digraph.edge_ofLists_iff, mem_nodes, mem_nodes, mem_upward, and_comm, and_assoc,
    and_left_comm, Needs]

theorem edge_installed (g : DistributionGraph) : g.installed.Edge = Function.swap g.Needs := by
  funext b a
  exact propext (edge_installed_iff a b)

theorem acyclic_installed_iff : g.installed.Acyclic ↔ ¬g.Circular := by
  rw [Digraph.Acyclic, edge_installed, Circular, not_exists]
  refine forall_congr' fun n => not_congr ?_
  exact transGen_swap

/-- The installed names are ordered, or they depend on each other in a circle. -/
theorem installOrder_cases (g : DistributionGraph) :
    (¬g.Circular ∧ ∃ order, g.installOrder = .ok order ∧ g.Orders order) ∨
      (g.Circular ∧ ∃ e, g.installOrder = .error e) := by
  rcases g.indexed_installed.sort_cases compare with
    ⟨hacyclic, order, hsort, hnodup, hmem, hafter⟩ | ⟨hcyclic, unreached, hsort⟩
  · refine Or.inl ⟨acyclic_installed_iff.1 hacyclic, order, hsort, hnodup, fun n => ?_, ?_⟩
    · rw [hmem, mem_vertices_installed]
    · intro a b hab
      exact hafter b a ((edge_installed_iff a b).2 hab)
  · refine Or.inr ⟨?_, _, hsort⟩
    rw [acyclic_installed_iff, not_not] at hcyclic
    exact hcyclic

end DistributionGraph

/-! ### What the source says -/

variable {σ ε : Type} {src : Source σ ε}

/-- The distributions of a graph, and the lack of one under a name, are as the source says. -/
theorem Closure.Ends.tells {asked : List (String × List String)} {extrasOf : String → Names}
    {k : Nat} {graph g : DistributionGraph} {layer : Names} {requests : Requests}
    {found : Findings} {s s₀ : σ} {r : Except ε DistributionGraph × Findings × σ}
    (h : Closure.Ends src layer graph requests found s r)
    (hm : Met asked k graph layer.toList ∅)
    (hr : Resolved src.environment asked extrasOf graph requests) (hs : src.Reaches s₀ s)
    (hfound : ∀ n entry, found[n]? = some entry → src.Tells s₀ n entry)
    (hgraph : ∀ n, graph.Has n → found[n]? = some graph.distributions[n]?) (hg : r.1 = .ok g)
    (n : String) (hn : g.Has n) : src.Tells s₀ n g.distributions[n]? := by
  -- the findings have an entry for each name of the graph, and it is the one in the graph
  induction h generalizing k extrasOf with
  | @done layer graph _ _ _ hlayer =>
    obtain rfl : graph = g := Except.ok.inj hg
    exact hfound n _ (hgraph n hn)
  | failed => nomatch hg
  | @layer layer graph _ found found' s s' _ hlayer hlookUp _ ih =>
    obtain ⟨hm', extrasOf', hr'⟩ := hm.visitLayer found' hr
    have hcases := getElem?_lookUp hs hlookUp
    refine ih hm' hr' (reaches_lookUp hs hlookUp) ?_ ?_ hg
    · intro m entry hentry
      rcases hcases m with ⟨-, entry', hentry', htells⟩ | ⟨-, hkept⟩
      · obtain rfl := Option.some.inj (hentry'.symm.trans hentry)
        exact htells
      · exact hfound m entry (hkept.symm.trans hentry)
    · intro m hmet
      rw [hm.getElem?_distributions_visitLayer]
      by_cases hlayer : m ∈ layer
      · obtain ⟨entry, hentry⟩ := exists_getElem?_lookUp hs hlookUp hlayer
        rw [if_pos hlayer, hentry, Option.join_some]
      · have hold := ((hm.has_visitLayer found' m).1 hmet).resolve_right hlayer
        have hkept := ((hcases m).resolve_left fun h => hlayer (mem_unknown.1 h.1).1).2
        rw [if_neg hlayer, hkept, hgraph m hold]

/-! ### The resolution -/

/-- Some name that is reached is not installed. -/
def DistributionGraph.Incomplete (g : DistributionGraph) (env : Environment)
    (ds : List Dependency) : Prop :=
  ∃ n, g.Reached env ds n ∧ n ∉ g.distributions

/-- What resolving comes to.  The conditions of the three outcomes exclude each other, and one of
them holds. -/
inductive DistributionGraph.Decides (g : DistributionGraph) (env : Environment)
    (ds : List Dependency) (strict : Bool) : Except (ResolveError ε) Resolution → Prop
  /-- The missing names count, and these are they. -/
  | missing {ns : List String} (hmissing : strict = true ∧ g.Incomplete env ds)
      (hsorted : ns.Pairwise fun a b => compare a b = .lt)
      (hmem : ∀ n, n ∈ ns ↔ g.Reached env ds n ∧ n ∉ g.distributions) :
      Decides g env ds strict (.error (.missing ns))
  | circle {e : Digraph.Error String} (hmissing : ¬(strict = true ∧ g.Incomplete env ds))
      (hcircular : g.Circular) : Decides g env ds strict (.error (.order e))
  | order {order : List String} (hmissing : ¬(strict = true ∧ g.Incomplete env ds))
      (hcircular : ¬g.Circular) (horders : g.Orders order) :
      Decides g env ds strict (.ok ⟨g, order⟩)

theorem DistributionGraph.Closes.isEmpty_missing_iff {g : DistributionGraph} {env : Environment}
    {ds : List Dependency} (h : g.Closes env ds) :
    g.missing.isEmpty = false ↔ g.Incomplete env ds := by
  rw [← ExtTreeSet.isEmpty_toList, List.isEmpty_eq_false_iff_exists_mem]
  exact exists_congr fun n => ExtTreeSet.mem_toList.trans (h.mem_missing_iff n)

/-- Missing names come first, in strict mode, and a circle second. -/
theorem Source.decides_resolve {ds : List Dependency} {s s' : σ} {g : DistributionGraph}
    {found' : Findings} (hclosure : src.closure ds ∅ s = (.ok g, found', s'))
    (h : g.Closes src.environment ds) (strict : Bool) :
    g.Decides src.environment ds strict (src.resolve ds strict s).1 := by
  rw [resolve, hclosure]
  dsimp only
  by_cases hmissing : strict = true ∧ g.Incomplete src.environment ds
  · have hcond : (strict && !g.missing.isEmpty) = true := by
      rw [hmissing.1, h.isEmpty_missing_iff.2 hmissing.2]
      rfl
    rw [if_pos hcond]
    refine .missing hmissing ExtTreeSet.ordered_toList fun n => ?_
    rw [ExtTreeSet.mem_toList, h.mem_missing_iff]
  · have hcond : ¬(strict && !g.missing.isEmpty) = true := by
      rw [Bool.and_eq_true, Bool.not_eq_true', h.isEmpty_missing_iff]
      exact hmissing
    rw [if_neg hcond]
    rcases g.installOrder_cases with ⟨hnone, order, horder, horders⟩ | ⟨hcircular, e, he⟩
    · rw [horder]
      exact .order hmissing hnone horders
    · rw [he]
      exact .circle hmissing hcircular

/-- From a source that knows finitely many distributions and never fails, the declared names lead to
a graph, and what that has is what the source says.  In strict mode resolving fails with the missing
names if there are any, circle or not; otherwise it fails if the installed names depend on each
other in a circle, and orders them if not.  So if strict resolving succeeds, everything that is
reached is installed, and comes after all that it depends on. -/
theorem Source.resolve_orders_or_refuses (src : Source σ ε) (ds : List Dependency) (s : σ)
    (names : Names) (hinstalls : src.Installs s names) (hcapacity : names.size ≤ src.capacity s)
    (hanswers : ∀ s' asked, src.Reaches s s' → ∃ answer, (src.fetch asked s').1 = .ok answer) :
    ∃ g, (src.closure ds ∅ s).1 = .ok g ∧ g.Closes src.environment ds ∧
      (∀ n, g.Reached src.environment ds n → src.Tells s n g.distributions[n]?) ∧
      (∀ table, src.AnswersFrom s table → ∀ n, g.Reached src.environment ds n →
        g.distributions[n]? = table[n]?) ∧
      (∀ strict, g.Decides src.environment ds strict (src.resolve ds strict s).1) ∧
      ∀ r, (src.resolve ds true s).1 = .ok r → ∀ n, g.Reached src.environment ds n →
        n ∈ g.distributions ∧ n ∈ r.order ∧ ∀ m, g.DependsOn n m → [m, n].Sublist r.order := by
  have hbuilds := builds_closure ds ∅ hinstalls hcapacity
  obtain ⟨g, hg⟩ := hbuilds.exists_ok .refl hanswers
  obtain ⟨_, _, _, hm, hr⟩ := hbuilds.resolved (Closure.met_start _) (Closure.resolved_start _ _) hg
  have hcloses : g.Closes src.environment ds := hm.closes hr
  have htells : ∀ n, g.Reached src.environment ds n → src.Tells s n g.distributions[n]? := by
    intro n hn
    refine hbuilds.tells (Closure.met_start _) (Closure.resolved_start _ _) .refl ?_ ?_ hg n
      ((hcloses.has_iff n).2 hn)
    · intro m entry hentry
      rw [ExtTreeMap.getElem?_empty] at hentry
      nomatch hentry
    · intro m hmet
      exact absurd hmet DistributionGraph.not_has_empty
  have hdecides : ∀ strict, g.Decides src.environment ds strict (src.resolve ds strict s).1 := by
    intro strict
    exact decides_resolve (Prod.ext hg rfl) hcloses strict
  refine ⟨g, hg, hcloses, htells, fun table htable n hn => htable.eq_of_tells (htells n hn),
    hdecides, fun r hr n hn => ?_⟩
  have hstrict := hdecides true
  rw [hr] at hstrict
  cases hstrict with
  | order hmissing _ horders =>
    have hinstalled : ∀ m, g.Reached src.environment ds m → m ∈ g.distributions := by
      intro m hm
      by_contra hnot
      exact hmissing ⟨rfl, m, hm, hnot⟩
    refine ⟨hinstalled n hn, (horders.mem_iff n).2 (hinstalled n hn), fun m hnm => ?_⟩
    exact horders.after n m ⟨hinstalled n hn, hinstalled m (hn.tail hnm), hnm⟩

theorem circleGraph_circular : circleGraph.Circular := by
  have happ : circleGraph.Needs "app" "lib" := by
    refine ⟨by decide +kernel, by decide +kernel, ExtTreeSet.ofList ["lib"], by decide +kernel, ?_⟩
    rw [KeySet.mem_ofList]
    decide
  have hlib : circleGraph.Needs "lib" "app" := by
    refine ⟨by decide +kernel, by decide +kernel, ExtTreeSet.ofList ["app", "gone"],
      by decide +kernel, ?_⟩
    rw [KeySet.mem_ofList]
    decide
  exact ⟨"app", (TransGen.single happ).tail hlib⟩

/-- In strict mode the missing name is the error, and the circle is otherwise. -/
theorem resolve_circle :
    (∃ ns, (circle.source.resolve circleDeclared true []).1 = .error (.missing ns) ∧ "gone" ∈ ns) ∧
      ∃ e, (circle.source.resolve circleDeclared false []).1 = .error (.order e) := by
  have hgraph : (circle.source.closure circleDeclared ∅ []).1 = .ok circleGraph :=
    eq_ok_of_parts (by decide +kernel)
  obtain ⟨g, hg, hcloses, -, -, hdecides, -⟩ := circle.source.resolve_orders_or_refuses
    circleDeclared [] circle.names (circle.installs []) (circle.size_names_le [])
    fun s' asked _ => ⟨circle.findings asked, rfl⟩
  obtain rfl := Except.ok.inj (hgraph.symm.trans hg)
  have hgone := (hcloses.mem_missing_iff "gone").1 (by decide +kernel)
  constructor
  · have hstrict := hdecides true
    generalize (circle.source.resolve circleDeclared true []).1 = r at hstrict ⊢
    cases hstrict with
    | missing _ _ hmem => exact ⟨_, rfl, (hmem "gone").2 hgone⟩
    | circle hmissing | order hmissing => exact absurd ⟨rfl, "gone", hgone⟩ hmissing
  · have hlenient := hdecides false
    generalize (circle.source.resolve circleDeclared false []).1 = r at hlenient ⊢
    cases hlenient with
    | missing hmissing => exact absurd hmissing.1 Bool.false_ne_true
    | circle => exact ⟨_, rfl⟩
    | order _ hnone => exact absurd circleGraph_circular hnone

end Requisite
