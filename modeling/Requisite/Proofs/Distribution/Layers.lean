import Requisite.Proofs.Distribution.Walks

/-!
# Layers

The names of a layer are visited in their order.  Between any two visits `Closure.Met` says which
names are settled, which are still to be visited at the present depth and which come next, and that
every edge leads to one of these; and `Closure.Resolved` says under which extras the distributions
were resolved.

* **`Closure.Met.settle`**, **`Closure.Resolved.settle_some`** — settling a name keeps both;
* **`Closure.Met.visitLayer`** — so does a layer, and what it discovers is the next one.
-/

namespace Requisite.Closure

open DistributionGraph Std

/-! ### Between two visits -/

/-- The names that are asked for. -/
def roots (asked : List (String × List String)) : List String :=
  asked.map Prod.fst

/-- The names that have been met at depth `k`: those that are settled, `rest`, which is still to be
visited, and `next`, which comes after it. -/
structure Met (asked : List (String × List String)) (k : Nat) (g : DistributionGraph)
    (rest : List String) (next : Names) : Prop where
  disjoint (n : String) : n ∈ g.distributions → n ∉ g.missing
  mem_dependencies (n : String) : n ∈ g.dependencies ↔ n ∈ g.distributions
  rest_sorted : rest.Pairwise fun a b => compare a b = .lt
  rest_new (n : String) : n ∈ rest → ¬g.Has n
  next_new (n : String) : n ∈ next → ¬g.Has n ∧ n ∉ rest
  roots_met (n : String) : n ∈ roots asked → g.Has n ∨ n ∈ rest
  edges_met (a b : String) : g.DependsOn a b → g.Has b ∨ b ∈ rest ∨ b ∈ next
  depth_has (n : String) : g.Has n →
    ∃ j, g.Depth (roots asked) j n ∧ (j < k ∨ j = k ∧ ∀ m ∈ rest, compare n m = .lt)
  depth_rest (n : String) : n ∈ rest → g.Depth (roots asked) k n
  depth_next (n : String) : n ∈ next → g.Depth (roots asked) (k + 1) n

/-- An extra of a name is asked for by a declaration. -/
def AskedFor (asked : List (String × List String)) (n x : String) : Prop :=
  ∃ extras, (n, extras) ∈ asked ∧ x ∈ extras

/-- An extra of a name is asked for by a requirement of the distribution of `a`, resolved under
the extras that `extrasOf` says. -/
def Requires (env : Environment) (extrasOf : String → Names) (g : DistributionGraph)
    (a n x : String) : Prop :=
  ∃ d, g.distributions[a]? = some d ∧ ∃ r ∈ demands env a (extrasOf a) d,
    r.canonicalName = n ∧ x ∈ r.extras

/-- Every distribution was resolved under those of its extras that were asked for before. -/
structure Resolved (env : Environment) (asked : List (String × List String))
    (extrasOf : String → Names) (g : DistributionGraph) (requests : Requests) : Prop where
  edges (n : String) (d : Distribution) : g.distributions[n]? = some d →
    g.dependencies[n]? = some (targets env n (extrasOf n) d)
  requested (n x : String) : x ∈ requests.getD n ∅ ↔
    AskedFor asked n x ∨ ∃ a, Requires env extrasOf g a n x
  extras (n : String) (d : Distribution) : g.distributions[n]? = some d → ∀ x, x ∈ extrasOf n ↔
    x ∈ d.providesExtras ∧ (AskedFor asked n x ∨
      ∃ a, g.Before (roots asked) a n ∧ Requires env extrasOf g a n x)

variable {env : Environment} {asked : List (String × List String)} {extrasOf : String → Names}
  {k : Nat} {g : DistributionGraph} {requests : Requests} {rest : List String} {next : Names}

theorem has_of_distribution {n : String} {d : Distribution}
    (h : g.distributions[n]? = some d) : g.Has n := by
  refine Or.inl ?_
  rw [ExtTreeMap.mem_iff_isSome_getElem?, h]
  rfl

/-- Nothing is settled before the first visit. -/
theorem met_start (asked : List (String × List String)) :
    Met asked 0 ∅ (ExtTreeSet.ofList (roots asked) : Names).toList ∅ := by
  have hlayer : ∀ n, n ∈ (ExtTreeSet.ofList (roots asked) : Names).toList ↔ n ∈ roots asked := by
    intro n
    rw [ExtTreeSet.mem_toList, KeySet.mem_ofList]
  have hnew : ∀ n, ¬(∅ : DistributionGraph).Has n := by
    intro n h
    exact h.elim ExtTreeMap.not_mem_empty ExtTreeSet.not_mem_empty
  constructor
  case disjoint =>
    intro n h
    exact absurd h ExtTreeMap.not_mem_empty
  case mem_dependencies =>
    intro n
    exact iff_of_false ExtTreeMap.not_mem_empty ExtTreeMap.not_mem_empty
  case rest_sorted => exact ExtTreeSet.ordered_toList
  case rest_new =>
    intro n _
    exact hnew n
  case next_new =>
    intro n h
    exact absurd h ExtTreeSet.not_mem_empty
  case roots_met =>
    intro n h
    exact Or.inr ((hlayer n).2 h)
  case edges_met =>
    intro a b h
    obtain ⟨names, h, -⟩ := h
    rw [dependencies_empty, ExtTreeMap.getElem?_empty] at h
    nomatch h
  case depth_has =>
    intro n h
    exact absurd h (hnew n)
  case depth_rest =>
    intro n h
    exact ⟨.root ((hlayer n).1 h), fun j _ => Nat.zero_le j⟩
  case depth_next =>
    intro n h
    exact absurd h ExtTreeSet.not_mem_empty

theorem resolved_start (env : Environment) (asked : List (String × List String)) :
    Resolved env asked (fun _ => ∅) ∅ (requestsOf asked) := by
  have hnone : ∀ (n : String) (d : Distribution),
      (∅ : DistributionGraph).distributions[n]? ≠ some d := by
    intro n d h
    rw [distributions_empty, ExtTreeMap.getElem?_empty] at h
    nomatch h
  constructor
  case edges =>
    intro n d h
    exact absurd h (hnone n d)
  case requested =>
    intro n x
    refine (mem_requestsOf asked n x).trans (or_iff_left ?_).symm
    intro h
    obtain ⟨a, d, h, -⟩ := h
    exact hnone a d h
  case extras =>
    intro n d h
    exact absurd h (hnone n d)

/-- Every name that can be reached has been met. -/
theorem Met.met_of_walk (h : Met asked k g rest next) {j : Nat} {n : String}
    (hn : g.Walk (roots asked) j n) : g.Has n ∨ n ∈ rest ∨ n ∈ next := by
  cases hn with
  | root hn => exact (h.roots_met n hn).imp_right Or.inl
  | step _ hab => exact h.edges_met _ n hab

/-- The names that come next are the layer after the one that was visited. -/
theorem Met.nextLayer (h : Met asked k g [] next) : Met asked (k + 1) g next.toList ∅ := by
  constructor
  case disjoint => exact h.disjoint
  case mem_dependencies => exact h.mem_dependencies
  case rest_sorted => exact ExtTreeSet.ordered_toList
  case rest_new =>
    intro n hn
    exact (h.next_new n (ExtTreeSet.mem_toList.1 hn)).1
  case next_new =>
    intro n hn
    exact absurd hn ExtTreeSet.not_mem_empty
  case roots_met =>
    intro n hn
    exact Or.inl ((h.roots_met n hn).resolve_right List.not_mem_nil)
  case edges_met =>
    intro a b hab
    rcases h.edges_met a b hab with hb | hb | hb
    · exact Or.inl hb
    · exact absurd hb List.not_mem_nil
    · exact Or.inr (Or.inl (ExtTreeSet.mem_toList.2 hb))
  case depth_has =>
    intro n hn
    obtain ⟨j, hj, hjk⟩ := h.depth_has n hn
    exact ⟨j, hj, Or.inl (by omega)⟩
  case depth_rest =>
    intro n hn
    exact h.depth_next n (ExtTreeSet.mem_toList.1 hn)
  case depth_next =>
    intro n hn
    exact absurd hn ExtTreeSet.not_mem_empty

/-! ### Settling a name -/

section Settle

variable {name : String}

theorem Met.name_new (h : Met asked k g (name :: rest) next) : ¬g.Has name :=
  h.rest_new name List.mem_cons_self

theorem Met.notMem_dependencies (h : Met asked k g (name :: rest) next) :
    name ∉ g.dependencies := by
  intro hname
  exact h.name_new (Or.inl ((h.mem_dependencies name).1 hname))

theorem Met.depth_name (h : Met asked k g (name :: rest) next) :
    g.Depth (roots asked) k name :=
  h.depth_rest name List.mem_cons_self

theorem Met.lt_of_mem_rest (h : Met asked k g (name :: rest) next) {n : String} (hn : n ∈ rest) :
    compare name n = .lt :=
  (List.pairwise_cons.1 h.rest_sorted).1 n hn

theorem Met.ne_of_mem_rest (h : Met asked k g (name :: rest) next) {n : String} (hn : n ∈ rest) :
    n ≠ name := by
  intro heq
  have hlt := h.lt_of_mem_rest hn
  rw [heq, compare_self] at hlt
  nomatch hlt

variable (extras : Names) (found : Option Distribution)

theorem Met.depth_settle (h : Met asked k g (name :: rest) next) {j : Nat} {n : String}
    (hn : g.Depth (roots asked) j n) (hj : j ≤ k + 1) :
    (g.settle env name extras found).Depth (roots asked) j n :=
  DistributionGraph.depth_settle h.notMem_dependencies h.depth_name hn hj

/-- Settling the first name of the rest keeps what holds between two visits. -/
theorem Met.settle (h : Met asked k g (name :: rest) next) {next' : Names}
    (hnext : ∀ n, n ∈ next' ↔ n ∈ next ∨ (∃ d, found = some d ∧ n ∈ targets env name extras d) ∧
      ¬(g.Has n ∨ n ∈ name :: rest)) :
    Met asked k (g.settle env name extras found) rest next' := by
  have hnew := h.name_new
  have hsorted := (List.pairwise_cons.1 h.rest_sorted).2
  have hhas : ∀ n, (g.settle env name extras found).Has n ↔ n = name ∨ g.Has n := by
    intro n
    exact has_settle
  have hknown : ∀ n, g.Has n ∨ n ∈ name :: rest →
      (g.settle env name extras found).Has n ∨ n ∈ rest := by
    intro n hn
    rw [hhas]
    rcases hn with hn | hn
    · exact Or.inl (Or.inr hn)
    · exact (List.mem_cons.1 hn).imp_left Or.inl
  have hedge := @dependsOn_settle g env name extras found h.notMem_dependencies
  constructor
  case disjoint =>
    intro n hn hmissing
    cases found with
    | none =>
      rcases KeySet.mem_insert_iff.1 hmissing with heq | hmissing
      · subst heq
        exact hnew (Or.inl hn)
      · exact h.disjoint n hn hmissing
    | some d =>
      rcases KeyMap.mem_insert_iff.1 hn with heq | hn
      · subst heq
        exact hnew (Or.inr hmissing)
      · exact h.disjoint n hn hmissing
  case mem_dependencies =>
    intro n
    cases found with
    | none => exact h.mem_dependencies n
    | some d =>
      show n ∈ g.dependencies.insert name _ ↔ n ∈ g.distributions.insert name d
      rw [KeyMap.mem_insert_iff, KeyMap.mem_insert_iff, h.mem_dependencies]
  case rest_sorted => exact hsorted
  case rest_new =>
    intro n hn hmem
    rcases (hhas n).1 hmem with heq | hmem
    · exact h.ne_of_mem_rest hn heq
    · exact h.rest_new n (List.mem_cons_of_mem name hn) hmem
  case next_new =>
    intro n hn
    have hnot : ¬g.Has n ∧ n ∉ name :: rest := by
      rcases (hnext n).1 hn with hn | hn
      · exact h.next_new n hn
      · exact not_or.1 hn.2
    rw [List.mem_cons, not_or] at hnot
    refine ⟨fun hmem => ?_, hnot.2.2⟩
    exact ((hhas n).1 hmem).elim hnot.2.1 hnot.1
  case roots_met =>
    intro n hn
    exact hknown n (h.roots_met n hn)
  case edges_met =>
    intro a b hab
    rw [hnext]
    by_cases hb : g.Has b ∨ b ∈ name :: rest
    · exact (hknown b hb).imp_right Or.inl
    · refine Or.inr (Or.inr ?_)
      rcases hedge.1 hab with hab | hab
      · exact Or.inl ((or_assoc.2 (h.edges_met a b hab)).resolve_left hb)
      · exact Or.inr ⟨hab.2, hb⟩
  case depth_has =>
    intro n hn
    rcases (hhas n).1 hn with heq | hn
    · subst heq
      exact ⟨k, h.depth_settle extras found h.depth_name (Nat.le_succ k),
        Or.inr ⟨rfl, fun m hm => h.lt_of_mem_rest hm⟩⟩
    · obtain ⟨j, hj, hjk⟩ := h.depth_has n hn
      refine ⟨j, h.depth_settle extras found hj (by omega), ?_⟩
      refine hjk.imp_right (And.imp_right ?_)
      intro hlt m hm
      exact hlt m (List.mem_cons_of_mem name hm)
  case depth_rest =>
    intro n hn
    exact h.depth_settle extras found (h.depth_rest n (List.mem_cons_of_mem name hn))
      (Nat.le_succ k)
  case depth_next =>
    intro n hn
    by_cases hold : n ∈ next
    · exact h.depth_settle extras found (h.depth_next n hold) (Nat.le_refl _)
    · obtain ⟨⟨d, hd, htarget⟩, hnot⟩ := ((hnext n).1 hn).resolve_left hold
      subst hd
      refine depth_target h.notMem_dependencies h.depth_name htarget ?_
      intro j hj
      exact (or_assoc.2 (h.met_of_walk hj)).elim hnot hold

/-! ### What comes before -/

/-- The names that are settled have a depth that stays. -/
theorem Met.depth_has_settle (h : Met asked k g (name :: rest) next) (env : Environment)
    {n : String} (hn : g.Has n) : ∃ j, g.Depth (roots asked) j n ∧
      (g.settle env name extras found).Depth (roots asked) j n ∧
        (j < k ∨ j = k ∧ compare n name = .lt) := by
  obtain ⟨j, hj, hjk⟩ := h.depth_has n hn
  have hle : j ≤ k + 1 := by omega
  refine ⟨j, hj, h.depth_settle extras found hj hle, hjk.imp_right (And.imp_right ?_)⟩
  intro hlt
  exact hlt name List.mem_cons_self

theorem Met.before_settle (h : Met asked k g (name :: rest) next) (env : Environment)
    {a n : String} (ha : g.Has a) (hn : g.Has n) :
    (g.settle env name extras found).Before (roots asked) a n ↔ g.Before (roots asked) a n := by
  obtain ⟨i, hi, hi', -⟩ := h.depth_has_settle extras found env ha
  obtain ⟨j, hj, hj', -⟩ := h.depth_has_settle extras found env hn
  constructor
  · intro hbefore
    obtain ⟨i₁, j₁, hi₁, hj₁, hij⟩ := hbefore
    obtain rfl := hi₁.unique hi'
    obtain rfl := hj₁.unique hj'
    exact ⟨i₁, j₁, hi, hj, hij⟩
  · intro hbefore
    obtain ⟨i₁, j₁, hi₁, hj₁, hij⟩ := hbefore
    obtain rfl := hi₁.unique hi
    obtain rfl := hj₁.unique hj
    exact ⟨i₁, j₁, hi', hj', hij⟩

/-- The name that is settled comes after all that were settled before. -/
theorem Met.before_name (h : Met asked k g (name :: rest) next) (env : Environment) {a : String}
    (ha : g.Has a) : (g.settle env name extras found).Before (roots asked) a name := by
  obtain ⟨i, -, hi, hik⟩ := h.depth_has_settle extras found env ha
  exact ⟨i, k, hi, h.depth_settle extras found h.depth_name (Nat.le_succ k), hik⟩

/-! ### Extras -/

/-- A name that is missing leaves the extras as they are. -/
theorem Resolved.settle_none (h : Resolved env asked extrasOf g requests)
    (hm : Met asked k g (name :: rest) next) :
    Resolved env asked extrasOf (g.settle env name extras none) requests := by
  constructor
  case edges => exact h.edges
  case requested => exact h.requested
  case extras =>
    intro n d hn x
    rw [h.extras n d hn x]
    refine and_congr_right fun _ => or_congr_right (exists_congr fun a => and_congr_left ?_)
    intro ha
    obtain ⟨da, hda, -⟩ := ha
    exact (hm.before_settle extras none env (has_of_distribution hda)
      (has_of_distribution hn)).symm

/-- The extras of all names, with those of one more. -/
def withExtras (extrasOf : String → Names) (name : String) (extras : Names) (n : String) : Names :=
  if n = name then extras else extrasOf n

theorem requires_settle_self (d : Distribution) (n x : String) :
    Requires env (withExtras extrasOf name extras) (g.settle env name extras (some d)) name n x ↔
      ∃ r ∈ demands env name extras d, r.canonicalName = n ∧ x ∈ r.extras := by
  have hname : (g.settle env name extras (some d)).distributions[name]? = some d :=
    ExtTreeMap.getElem?_insert_self
  rw [Requires, hname, withExtras, if_pos rfl]
  simp only [Option.some.injEq, exists_eq_left']

theorem requires_settle_of_ne (d : Distribution) {a : String} (ha : a ≠ name) (n x : String) :
    Requires env (withExtras extrasOf name extras) (g.settle env name extras (some d)) a n x ↔
      Requires env extrasOf g a n x := by
  have hkeep : (g.settle env name extras (some d)).distributions[a]? = g.distributions[a]? :=
    KeyMap.getElem?_insert_of_ne ha
  rw [Requires, hkeep, withExtras, if_neg ha]
  rfl

/-- What was required before the name was settled is not required by it. -/
theorem Met.has_of_requires (hm : Met asked k g (name :: rest) next) {a n x : String}
    (ha : Requires env extrasOf g a n x) : g.Has a ∧ a ≠ name := by
  obtain ⟨d, hd, -⟩ := ha
  refine ⟨has_of_distribution hd, fun heq => ?_⟩
  subst heq
  exact hm.name_new (has_of_distribution hd)

/-- A distribution is resolved under those of its extras that are asked for so far. -/
theorem Resolved.settle_some (h : Resolved env asked extrasOf g requests)
    (hm : Met asked k g (name :: rest) next) {d : Distribution}
    (hextras : ∀ x, x ∈ extras ↔ x ∈ d.providesExtras ∧ x ∈ requests.getD name ∅) :
    Resolved env asked (withExtras extrasOf name extras) (g.settle env name extras (some d))
      ((demands env name extras d).foldl (fun q r => q.add r.canonicalName r.extras) requests) := by
  have hname : (g.settle env name extras (some d)).distributions[name]? = some d :=
    ExtTreeMap.getElem?_insert_self
  have hkeep : ∀ n, n ≠ name →
      (g.settle env name extras (some d)).distributions[n]? = g.distributions[n]? := by
    intro n hn
    exact KeyMap.getElem?_insert_of_ne hn
  constructor
  case edges =>
    intro n dn hn
    by_cases heq : n = name
    · subst heq
      obtain rfl := Option.some.inj (hname.symm.trans hn)
      rw [withExtras, if_pos rfl]
      exact ExtTreeMap.getElem?_insert_self
    · rw [withExtras, if_neg heq, ← h.edges n dn ((hkeep n heq).symm.trans hn)]
      exact KeyMap.getElem?_insert_of_ne heq
  case requested =>
    intro n x
    rw [Requests.mem_foldl_add, h.requested, or_assoc, ← requires_settle_self]
    refine or_congr_right ?_
    constructor
    · intro hx
      rcases hx with ⟨a, ha⟩ | hx
      · exact ⟨a, (requires_settle_of_ne extras d (hm.has_of_requires ha).2 n x).2 ha⟩
      · exact ⟨name, hx⟩
    · intro hx
      obtain ⟨a, ha⟩ := hx
      by_cases heq : a = name
      · subst heq
        exact Or.inr ha
      · exact Or.inl ⟨a, (requires_settle_of_ne extras d heq n x).1 ha⟩
  case extras =>
    intro n dn hn x
    by_cases heq : n = name
    · subst heq
      obtain rfl := Option.some.inj (hname.symm.trans hn)
      rw [withExtras, if_pos rfl, hextras, h.requested]
      refine and_congr_right fun _ => or_congr_right (exists_congr fun a => ?_)
      constructor
      · intro ha
        obtain ⟨hhas, hne⟩ := hm.has_of_requires ha
        exact ⟨hm.before_name extras (some d) env hhas,
          (requires_settle_of_ne extras d hne n x).2 ha⟩
      · intro ha
        exact (requires_settle_of_ne extras d ha.1.ne n x).1 ha.2
    · have hold : g.distributions[n]? = some dn := (hkeep n heq).symm.trans hn
      have hhas := has_of_distribution hold
      rw [withExtras, if_neg heq, h.extras n dn hold x]
      refine and_congr_right fun _ => or_congr_right (exists_congr fun a => ?_)
      constructor
      · intro ha
        obtain ⟨hahas, hne⟩ := hm.has_of_requires ha.2
        exact ⟨(hm.before_settle extras (some d) env hahas hhas).2 ha.1,
          (requires_settle_of_ne extras d hne n x).2 ha.2⟩
      · intro ha
        have hne : a ≠ name := by
          intro heq
          subst heq
          exact ha.1.asymm (hm.before_name extras (some d) env hhas)
        have hrequires := (requires_settle_of_ne extras d hne n x).1 ha.2
        exact ⟨(hm.before_settle extras (some d) env (hm.has_of_requires hrequires).1 hhas).1 ha.1,
          hrequires⟩

end Settle

/-! ### A whole layer -/

section Visit

variable {known : String → Bool} {found : Findings} {p : Progress} {name : String}

theorem visit_none (h : (found[name]?).join = none) (extras : Names) :
    visit env known found p name = { p with graph := p.graph.settle env name extras none } := by
  rw [visit, h]
  rfl

theorem visit_some {d : Distribution} (h : (found[name]?).join = some d) {extras : Names}
    (hextras : extras = p.requests.getD name ∅ ∩ d.providesExtras) :
    visit env known found p name = {
      graph := p.graph.settle env name extras (some d)
      requests := (demands env name extras d).foldl
        (fun q r => q.add r.canonicalName r.extras) p.requests
      discovered := p.discovered.insertMany
        (((demands env name extras d).map Declared.canonicalName).filter fun n => !known n) } := by
  rw [visit, h, hextras]
  rfl

theorem mem_discovered_visit {d : Distribution} {extras : Names} (n : String) :
    n ∈ p.discovered.insertMany
        (((demands env name extras d).map Declared.canonicalName).filter fun n => !known n) ↔
      n ∈ p.discovered ∨ n ∈ targets env name extras d ∧ ¬known n = true := by
  rw [KeySet.mem_insertMany, List.mem_filter, targets, KeySet.mem_ofList, Bool.not_eq_true',
    Bool.not_eq_true]

/-- Visiting a name settles it, keeps what holds between two visits and resolves its distribution
under the extras that are asked for so far. -/
theorem Met.visit (found : Findings) {graph : DistributionGraph}
    (hm : Met asked k (graph.merge p.graph) (name :: rest) p.discovered)
    (hr : Resolved env asked extrasOf (graph.merge p.graph) p.requests)
    (hnew : name ∉ graph.dependencies)
    (hknown : ∀ n, known n = true ↔ (graph.merge p.graph).Has n ∨ n ∈ name :: rest) :
    Met asked k (graph.merge (visit env known found p name).graph) rest
        (visit env known found p name).discovered ∧
      (∃ extrasOf', Resolved env asked extrasOf' (graph.merge (visit env known found p name).graph)
        (visit env known found p name).requests) ∧
      ∀ n, known n = true ↔ (graph.merge (visit env known found p name).graph).Has n ∨ n ∈ rest := by
  cases hfound : (found[name]?).join with
  | none =>
    rw [visit_none hfound ∅]
    show Met asked k (graph.merge (p.graph.settle env name ∅ none)) rest p.discovered ∧ _
    rw [merge_settle hnew]
    refine ⟨hm.settle ∅ none fun n => ?_, ⟨extrasOf, hr.settle_none ∅ hm⟩, fun n => ?_⟩
    · refine (or_iff_left ?_).symm
      intro hn
      obtain ⟨⟨d, hd, -⟩, -⟩ := hn
      nomatch hd
    · rw [hknown, has_settle, List.mem_cons, or_left_comm, or_assoc]
  | some d =>
    let extras := p.requests.getD name ∅ ∩ d.providesExtras
    rw [visit_some hfound (rfl : extras = _)]
    show Met asked k (graph.merge (p.graph.settle env name extras (some d))) rest _ ∧ _
    rw [merge_settle hnew]
    refine ⟨hm.settle extras (some d) fun n => ?_,
      ⟨_, hr.settle_some extras hm fun x => ?_⟩, fun n => ?_⟩
    · rw [mem_discovered_visit, hknown]
      simp only [Option.some.injEq, exists_eq_left']
    · rw [ExtTreeSet.mem_inter_iff, and_comm]
    · rw [hknown, has_settle, List.mem_cons, or_left_comm, or_assoc]

theorem Met.foldl_visit (found : Findings) (p : Progress) {graph : DistributionGraph}
    (hm : Met asked k (graph.merge p.graph) rest p.discovered)
    (hr : Resolved env asked extrasOf (graph.merge p.graph) p.requests)
    (hnew : ∀ n ∈ rest, n ∉ graph.dependencies)
    (hknown : ∀ n, known n = true ↔ (graph.merge p.graph).Has n ∨ n ∈ rest) :
    Met asked k (graph.merge (rest.foldl (Closure.visit env known found) p).graph) []
        (rest.foldl (Closure.visit env known found) p).discovered ∧
      ∃ extrasOf', Resolved env asked extrasOf'
        (graph.merge (rest.foldl (Closure.visit env known found) p).graph)
        (rest.foldl (Closure.visit env known found) p).requests := by
  induction rest generalizing p extrasOf with
  | nil => exact ⟨hm, extrasOf, hr⟩
  | cons name rest ih =>
    obtain ⟨hm', ⟨extrasOf', hr'⟩, hknown'⟩ := hm.visit found hr
      (hnew name List.mem_cons_self) hknown
    refine ih _ hm' hr' ?_ hknown'
    intro n hn
    exact hnew n (List.mem_cons_of_mem name hn)

theorem mem_distributions_visit (n : String) :
    n ∈ (visit env known found p name).graph.distributions ↔
      n ∈ p.graph.distributions ∨ n = name ∧ ((found[name]?).join).isSome = true := by
  cases hfound : (found[name]?).join with
  | none =>
    rw [visit_none hfound ∅, or_iff_left fun h => Bool.false_ne_true h.2]
    rfl
  | some d =>
    rw [visit_some hfound rfl, Option.isSome_some, and_iff_left rfl, or_comm]
    exact KeyMap.mem_insert_iff

/-- A layer resolves the names under which something was found. -/
theorem mem_distributions_foldl_visit (l : List String) (n : String) :
    n ∈ (l.foldl (visit env known found) p).graph.distributions ↔
      n ∈ p.graph.distributions ∨ n ∈ l ∧ ((found[n]?).join).isSome = true := by
  induction l generalizing p with
  | nil => exact (or_iff_left fun h => List.not_mem_nil h.1).symm
  | cons name l ih =>
    rw [List.foldl_cons, ih, mem_distributions_visit, or_assoc, List.mem_cons, or_and_right]
    refine or_congr_right (or_congr_left (and_congr_right ?_))
    intro heq
    rw [heq]

/-- Where nothing is found, nothing is discovered. -/
theorem discovered_foldl_visit {l : List String} (h : ∀ n ∈ l, (found[n]?).join = none) :
    (l.foldl (visit env known found) p).discovered = p.discovered := by
  induction l generalizing p with
  | nil => rfl
  | cons name l ih =>
    rw [List.foldl_cons, ih fun n hn => h n (List.mem_cons_of_mem name hn),
      visit_none (h name List.mem_cons_self) ∅]

end Visit

/-- A layer that is visited settles its names, and the names that it discovers are the layer
after it. -/
theorem Met.visitLayer {layer : Names} (hm : Met asked k g layer.toList ∅) (found : Findings)
    (hr : Resolved env asked extrasOf g requests) :
    Met asked (k + 1) (g.merge (visitLayer env g layer requests found).graph)
        (visitLayer env g layer requests found).discovered.toList ∅ ∧
      ∃ extrasOf', Resolved env asked extrasOf'
        (g.merge (visitLayer env g layer requests found).graph)
        (visitLayer env g layer requests found).requests := by
  have hmet : Met asked k (g.merge ∅) layer.toList ∅ := by
    rw [g.merge_empty]
    exact hm
  have hresolved : Resolved env asked extrasOf (g.merge ∅) requests := by
    rw [g.merge_empty]
    exact hr
  have hknown : ∀ n, (g.contains n || layer.contains n) = true ↔
      (g.merge ∅).Has n ∨ n ∈ layer.toList := by
    intro n
    rw [Bool.or_eq_true, contains_iff, ExtTreeSet.mem_toList, g.merge_empty]
    rfl
  have hnew : ∀ n ∈ layer.toList, n ∉ g.dependencies := by
    intro n hn hmem
    exact hm.rest_new n hn (Or.inl ((hm.mem_dependencies n).1 hmem))
  have hfold := Met.foldl_visit found ⟨∅, requests, ∅⟩ hmet hresolved hnew hknown
  exact ⟨hfold.1.nextLayer, hfold.2⟩

end Requisite.Closure
