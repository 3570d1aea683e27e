import Requisite.Proofs.Distribution.Closure

/-!
# The layers of a table

What the declared names lead to in a table of distributions: the graph, and the layers in which its
names are met.  Neither depends on what is known beforehand or on how a source is asked.

* **`Closure.Unfolds`** — a layer leads to a list of layers and to a graph;
* **`Closure.Unfolds.mem_layer_iff`** — the layer number `k` has the names at depth `k`;
* **`Closure.Unfolds.has_iff`** — the layers have all names of the graph.
-/

namespace Requisite

open DistributionGraph Std

theorem DistributionGraph.not_has_empty {n : String} : ¬(∅ : DistributionGraph).Has n := by
  intro hn
  exact hn.elim ExtTreeMap.not_mem_empty ExtTreeSet.not_mem_empty

namespace Closure

variable {env : Environment} {table : KeyMap String Distribution}
  {asked : List (String × List String)} {extrasOf : String → Names} {k : Nat}

/-! ### Findings on one layer -/

section Visit

variable {known : String → Bool} {found found' : Findings} {graph : DistributionGraph}
  {rest : List String} {requests : Requests} {layer : Names}

/-- Only the findings on the names of a layer count for it. -/
theorem foldl_visit_congr {p : Progress} (h : ∀ n ∈ rest, (found[n]?).join = (found'[n]?).join) :
    rest.foldl (visit env known found) p = rest.foldl (visit env known found') p := by
  induction rest generalizing p with
  | nil => rfl
  | cons name rest ih =>
    have hname : visit env known found p name = visit env known found' p name := by
      rw [visit, visit, h name List.mem_cons_self]
    rw [List.foldl_cons, List.foldl_cons, hname]
    exact ih fun n hn => h n (List.mem_cons_of_mem name hn)

theorem visitLayer_congr (h : ∀ n ∈ layer, (found[n]?).join = (found'[n]?).join) :
    visitLayer env graph layer requests found = visitLayer env graph layer requests found' :=
  foldl_visit_congr fun n hn => h n (ExtTreeSet.mem_toList.1 hn)

/-- A visit settles the name with what was found on it. -/
theorem merge_visit (env : Environment) (known : String → Bool) (found : Findings) (p : Progress)
    {name : String} (hnew : name ∉ graph.dependencies) :
    ∃ extras, graph.merge (visit env known found p name).graph =
      (graph.merge p.graph).settle env name extras (found[name]?).join := by
  cases hfound : (found[name]?).join with
  | none =>
    refine ⟨∅, ?_⟩
    rw [visit_none hfound ∅]
    exact merge_settle hnew none
  | some d =>
    refine ⟨p.requests.getD name ∅ ∩ d.providesExtras, ?_⟩
    rw [visit_some hfound rfl]
    exact merge_settle hnew (some d)

theorem getElem?_distributions_settle {g : DistributionGraph} {name : String} {extras : Names}
    {entry : Option Distribution} (hname : name ∉ g.distributions) (n : String) :
    (g.settle env name extras entry).distributions[n]? =
      if n = name then entry else g.distributions[n]? := by
  cases entry with
  | none =>
    by_cases heq : n = name
    · rw [if_pos heq, heq]
      exact KeyMap.getElem?_eq_none_iff.2 hname
    · exact (if_neg heq).symm
  | some d =>
    by_cases heq : n = name
    · rw [if_pos heq, heq]
      exact ExtTreeMap.getElem?_insert_self
    · rw [if_neg heq]
      exact KeyMap.getElem?_insert_of_ne heq

/-- A layer settles its names and no others. -/
theorem has_foldl_visit {p : Progress} (hnew : ∀ n ∈ rest, n ∉ graph.dependencies) (n : String) :
    (graph.merge (rest.foldl (visit env known found) p).graph).Has n ↔
      (graph.merge p.graph).Has n ∨ n ∈ rest := by
  induction rest generalizing p with
  | nil => exact (or_iff_left List.not_mem_nil).symm
  | cons name rest ih =>
    obtain ⟨extras, hvisit⟩ := merge_visit env known found p (hnew name List.mem_cons_self)
    rw [List.foldl_cons, ih fun n hn => hnew n (List.mem_cons_of_mem name hn), hvisit, has_settle,
      List.mem_cons, or_left_comm, or_assoc]

/-- Each name of a layer gets the distribution that was found for it. -/
theorem getElem?_distributions_foldl_visit {p : Progress}
    (hnew : ∀ n ∈ rest, n ∉ graph.dependencies) (hrest : rest.Nodup)
    (hout : ∀ n ∈ rest, n ∉ (graph.merge p.graph).distributions) (n : String) :
    (graph.merge (rest.foldl (visit env known found) p).graph).distributions[n]? =
      if n ∈ rest then (found[n]?).join else (graph.merge p.graph).distributions[n]? := by
  induction rest generalizing p with
  | nil => rfl
  | cons name rest ih =>
    obtain ⟨hname, hnodup⟩ := List.nodup_cons.1 hrest
    -- a name that is settled is no name of the rest, whose distributions are still to come
    obtain ⟨extras, hvisit⟩ := merge_visit env known found p (hnew name List.mem_cons_self)
    have hsettled : ∀ m, (graph.merge (visit env known found p name).graph).distributions[m]? =
        if m = name then (found[name]?).join else (graph.merge p.graph).distributions[m]? := by
      intro m
      rw [hvisit]
      exact getElem?_distributions_settle (hout name List.mem_cons_self) m
    have hout' : ∀ m ∈ rest,
        m ∉ (graph.merge (visit env known found p name).graph).distributions := by
      intro m hm
      have hne : m ≠ name := fun heq => hname (heq ▸ hm)
      rw [← KeyMap.getElem?_eq_none_iff, hsettled, if_neg hne, KeyMap.getElem?_eq_none_iff]
      exact hout m (List.mem_cons_of_mem name hm)
    rw [List.foldl_cons, ih (fun m hm => hnew m (List.mem_cons_of_mem name hm)) hnodup hout',
      hsettled]
    by_cases heq : n = name
    · subst heq
      rw [if_neg hname, if_pos rfl, if_pos List.mem_cons_self]
    · rw [if_neg heq]
      simp only [List.mem_cons, heq, false_or]

/-- The depths that are known when a layer is visited stay. -/
theorem Met.depth_foldl_visit {p : Progress}
    (hm : Met asked k (graph.merge p.graph) rest p.discovered)
    (hr : Resolved env asked extrasOf (graph.merge p.graph) p.requests)
    (hnew : ∀ n ∈ rest, n ∉ graph.dependencies)
    (hknown : ∀ n, known n = true ↔ (graph.merge p.graph).Has n ∨ n ∈ rest) {j : Nat} {n : String}
    (hn : (graph.merge p.graph).Depth (roots asked) j n) (hj : j ≤ k + 1) :
    (graph.merge (rest.foldl (Closure.visit env known found) p).graph).Depth (roots asked) j n := by
  induction rest generalizing p extrasOf with
  | nil => exact hn
  | cons name rest ih =>
    have hname := hnew name List.mem_cons_self
    obtain ⟨hm', ⟨extrasOf', hr'⟩, hknown'⟩ := hm.visit found hr hname hknown
    obtain ⟨extras, hvisit⟩ := merge_visit env known found p hname
    refine ih hm' hr' (fun n hn => hnew n (List.mem_cons_of_mem name hn)) hknown' ?_
    rw [hvisit]
    exact hm.depth_settle extras _ hn hj

end Visit

section Layer

variable {graph : DistributionGraph} {requests : Requests} {layer : Names}

/-- The names of a layer that is to be visited have no edges yet. -/
theorem Met.notMem_dependencies_of_mem (hm : Met asked k graph layer.toList ∅) :
    ∀ n ∈ layer.toList, n ∉ graph.dependencies := by
  intro n hn hmem
  exact hm.rest_new n hn (Or.inl ((hm.mem_dependencies n).1 hmem))

theorem Met.has_visitLayer (hm : Met asked k graph layer.toList ∅) (found : Findings)
    (n : String) : (graph.merge (Closure.visitLayer env graph layer requests found).graph).Has n ↔
      graph.Has n ∨ n ∈ layer := by
  rw [Closure.visitLayer, has_foldl_visit hm.notMem_dependencies_of_mem n, graph.merge_empty,
    ExtTreeSet.mem_toList]

theorem Met.getElem?_distributions_visitLayer (hm : Met asked k graph layer.toList ∅)
    (found : Findings) (n : String) :
    (graph.merge (Closure.visitLayer env graph layer requests found).graph).distributions[n]? =
      if n ∈ layer then (found[n]?).join else graph.distributions[n]? := by
  have hout : ∀ n ∈ layer.toList, n ∉ (graph.merge ∅).distributions := by
    intro n hn hmem
    rw [graph.merge_empty] at hmem
    exact hm.rest_new n hn (Or.inl hmem)
  refine (getElem?_distributions_foldl_visit hm.notMem_dependencies_of_mem
    (KeySet.nodup_toList layer) hout n).trans ?_
  simp only [graph.merge_empty, ExtTreeSet.mem_toList]

theorem Met.depth_visitLayer (hm : Met asked k graph layer.toList ∅)
    (hr : Resolved env asked extrasOf graph requests) (found : Findings) {j : Nat} {n : String}
    (hn : graph.Depth (roots asked) j n) (hj : j ≤ k + 1) :
    (graph.merge (Closure.visitLayer env graph layer requests found).graph).Depth (roots asked) j
      n := by
  have hmerge := graph.merge_empty
  refine Met.depth_foldl_visit (p := Progress.mk ∅ requests ∅) (hmerge.symm ▸ hm) (hmerge.symm ▸ hr)
    hm.notMem_dependencies_of_mem (fun n => ?_) (hmerge.symm ▸ hn) hj
  rw [Bool.or_eq_true, contains_iff, ExtTreeSet.mem_toList, hmerge]
  rfl

end Layer

/-! ### All layers -/

/-- The findings that a table gives on its own names. -/
def entries (table : KeyMap String Distribution) : Findings :=
  table.map fun _ d => some d

theorem join_entries (table : KeyMap String Distribution) (n : String) :
    ((entries table)[n]?).join = table[n]? := by
  rw [entries, ExtTreeMap.getElem?_map]
  cases table[n]? with
  | none => rfl
  | some d => rfl

/-- A layer leads to a list of layers, the first of them itself, and to a graph. -/
inductive Unfolds (env : Environment) (table : KeyMap String Distribution) :
    Names → DistributionGraph → Requests → List Names → DistributionGraph → Prop
  | done {layer : Names} {graph : DistributionGraph} {requests : Requests}
      (hlayer : layer.isEmpty = true) : Unfolds env table layer graph requests [] graph
  | layer {layer : Names} {graph g : DistributionGraph} {requests : Requests} {layers : List Names}
      (hlayer : layer.isEmpty = false)
      (hrest : Unfolds env table (visitLayer env graph layer requests (entries table)).discovered
        (graph.merge (visitLayer env graph layer requests (entries table)).graph)
        (visitLayer env graph layer requests (entries table)).requests layers g) :
      Unfolds env table layer graph requests (layer :: layers) g

variable {layer : Names} {graph g : DistributionGraph} {requests : Requests} {layers : List Names}

/-- Between two layers it holds what held before, and at the end nothing is left to be visited. -/
theorem Unfolds.met (h : Unfolds env table layer graph requests layers g)
    (hm : Met asked k graph layer.toList ∅) (hr : Resolved env asked extrasOf graph requests) :
    ∃ k extrasOf requests, Met asked k g [] ∅ ∧ Resolved env asked extrasOf g requests := by
  induction h generalizing k extrasOf with
  | @done layer graph requests hlayer =>
    rw [ExtTreeSet.isEmpty_iff.1 hlayer] at hm
    exact ⟨k, extrasOf, requests, hm, hr⟩
  | layer hlayer hrest ih =>
    obtain ⟨hm', extrasOf', hr'⟩ := hm.visitLayer (entries table) hr
    exact ih hm' hr'

theorem Unfolds.has_iff (h : Unfolds env table layer graph requests layers g)
    (hm : Met asked k graph layer.toList ∅) (hr : Resolved env asked extrasOf graph requests)
    (n : String) : g.Has n ↔ graph.Has n ∨ ∃ l ∈ layers, n ∈ l := by
  induction h generalizing k extrasOf with
  | done hlayer => simp only [List.not_mem_nil, false_and, exists_false, or_false]
  | layer hlayer hrest ih =>
    obtain ⟨hm', extrasOf', hr'⟩ := hm.visitLayer (entries table) hr
    rw [ih hm' hr', hm.has_visitLayer]
    simp only [List.mem_cons, or_and_right, exists_or, exists_eq_left, or_assoc]

theorem Unfolds.depth (h : Unfolds env table layer graph requests layers g)
    (hm : Met asked k graph layer.toList ∅) (hr : Resolved env asked extrasOf graph requests)
    {j : Nat} {n : String} (hn : graph.Depth (roots asked) j n) (hj : j ≤ k + 1) :
    g.Depth (roots asked) j n := by
  induction h generalizing k extrasOf with
  | done hlayer => exact hn
  | layer hlayer hrest ih =>
    obtain ⟨hm', extrasOf', hr'⟩ := hm.visitLayer (entries table) hr
    exact ih hm' hr' (hm.depth_visitLayer hr _ hn hj) (Nat.le_succ_of_le hj)

/-- The layers are met one after the other, each a step further from the names asked for. -/
theorem Unfolds.depth_of_mem (h : Unfolds env table layer graph requests layers g)
    (hm : Met asked k graph layer.toList ∅) (hr : Resolved env asked extrasOf graph requests)
    {i : Nat} {l : Names} (hl : layers[i]? = some l) {n : String} (hn : n ∈ l) :
    g.Depth (roots asked) (k + i) n := by
  induction h generalizing k i extrasOf with
  | done hlayer => nomatch hl
  | @layer layer graph g requests layers hlayer hrest ih =>
    cases i with
    | zero =>
      obtain rfl : layer = l := Option.some.inj hl
      exact (Unfolds.layer hlayer hrest).depth hm hr
        (hm.depth_rest n (ExtTreeSet.mem_toList.2 hn)) (Nat.le_succ k)
    | succ i =>
      obtain ⟨hm', extrasOf', hr'⟩ := hm.visitLayer (entries table) hr
      rw [← Nat.succ_add_eq_add_succ]
      exact ih hm' hr' hl

/-! ### From the declared names -/

/-- The first layer: the names that are asked for. -/
def firstLayer (asked : List (String × List String)) : Names :=
  ExtTreeSet.ofList (roots asked)

/-- The layer number `k` has the names at depth `k`. -/
theorem Unfolds.mem_layer_iff
    (h : Unfolds env table (firstLayer asked) ∅ (requestsOf asked) layers g) (n : String) :
    n ∈ layers.getD k ∅ ↔ g.Depth (roots asked) k n := by
  have hm := met_start asked
  have hr := resolved_start env asked
  have hdepth : ∀ {i l}, layers[i]? = some l → n ∈ l → g.Depth (roots asked) i n := by
    intro i l hl hn
    have h := h.depth_of_mem hm hr hl hn
    rw [Nat.zero_add] at h
    exact h
  constructor
  · intro hn
    rw [List.getD_eq_getElem?_getD] at hn
    cases hl : layers[k]? with
    | none =>
      rw [hl] at hn
      exact absurd hn ExtTreeSet.not_mem_empty
    | some l =>
      rw [hl] at hn
      exact hdepth hl hn
  · intro hn
    -- every name with a depth is met in some layer, and it has one depth only
    obtain ⟨_, _, _, hend, -⟩ := h.met hm hr
    have hhas : g.Has n := by
      rcases hend.met_of_walk hn.1 with hhas | hnil | hempty
      · exact hhas
      · exact absurd hnil List.not_mem_nil
      · exact absurd hempty ExtTreeSet.not_mem_empty
    obtain ⟨l, hmem, hnl⟩ := ((h.has_iff hm hr n).1 hhas).resolve_left not_has_empty
    obtain ⟨i, hi⟩ := List.mem_iff_getElem?.1 hmem
    obtain rfl := (hdepth hi hnl).unique hn
    rw [List.getD_eq_getElem?_getD, hi]
    exact hnl

end Closure

end Requisite
