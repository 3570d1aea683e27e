import Mathlib.Logic.ExistsUnique
import Mathlib.Logic.Relation
import Requisite.Proofs.Distribution.Layers
import Requisite.Proofs.Distribution.Source

/-!
# The graph behind declared dependencies

Layer by layer a graph grows until nothing new is discovered.  If the source knows finitely many
distributions this ends: every layer but the last resolves a name that no layer before it has.  The
graph that is left has everything that the declared names lead to, and nothing else.

* **`Closure.grow_ends`** — the bound on the number of layers is never what ends them;
* **`Closure.Ends.resolved`** — what holds between two layers holds of the result;
* **`Source.closure_ends_closed`** — the growing ends, with a graph that is closed.
-/

open Relation

namespace Requisite

open DistributionGraph Std

namespace Closure

variable {σ ε : Type} {src : Source σ ε}

/-- Everything that was found is under `pool`. -/
def FoundIn (found : Findings) (pool : List String) : Prop :=
  ∀ n, ((found[n]?).join).isSome = true → n ∈ pool

theorem getElem?_record_of_notMem {names : List String} (answer found : Findings) {n : String}
    (hn : n ∉ names) : (record names answer found)[n]? = found[n]? := by
  induction names generalizing found with
  | nil => rfl
  | cons name names ih =>
    rw [List.mem_cons, not_or] at hn
    rw [record, List.foldl_cons]
    exact (ih _ hn.2).trans (KeyMap.getElem?_insert_of_ne hn.1)

theorem getElem?_record_of_mem {names : List String} (answer found : Findings) {n : String}
    (hn : n ∈ names) : (record names answer found)[n]? = some (answer[n]?).join := by
  induction names generalizing found with
  | nil => exact absurd hn List.not_mem_nil
  | cons name names ih =>
    rw [record, List.foldl_cons]
    by_cases hrest : n ∈ names
    · exact ih _ hrest
    · obtain rfl := (List.mem_cons.1 hn).resolve_right hrest
      exact (getElem?_record_of_notMem answer _ hrest).trans ExtTreeMap.getElem?_insert_self

/-- A look-up finds nothing that the source does not report. -/
theorem foundIn_lookUp {layer : Names} {found found' : Findings} {s₀ s s' : σ} {names : Names}
    {pool : List String} (hinstalls : src.Installs s₀ names) (hpool : ∀ n ∈ names, n ∈ pool)
    (hreach : src.Reaches s₀ s) (hfound : FoundIn found pool)
    (h : lookUp src layer found s = (.ok found', s')) : FoundIn found' pool ∧ src.Reaches s₀ s' := by
  unfold lookUp at h
  cases hunknown : unknown layer found with
  | nil =>
    rw [hunknown] at h
    injection h with hfound' hs
    injection hfound' with hfound'
    subst hfound' hs
    exact ⟨hfound, hreach⟩
  | cons name rest =>
    rw [hunknown] at h
    have hnext : src.Reaches s₀ (src.fetch (name :: rest) s).2 := hreach.fetch _
    dsimp only at h
    cases hfetch : src.fetch (name :: rest) s with
    | mk answer s₁ =>
      rw [hfetch] at h hnext
      cases answer with
      | error e =>
        injection h with h
        nomatch h
      | ok answer =>
        injection h with hfound' hs
        injection hfound' with hfound'
        subst hfound' hs
        refine ⟨fun n hn => ?_, hnext⟩
        by_cases hmem : n ∈ name :: rest
        · rw [getElem?_record_of_mem answer found hmem] at hn
          obtain ⟨d, hd⟩ := Option.isSome_iff_exists.1 hn
          rw [Option.join_some] at hd
          exact hpool n (hinstalls s _ answer s₁ hreach hfetch n hmem d (Option.join_eq_some_iff.1 hd))
        · rw [getElem?_record_of_notMem answer found hmem] at hn
          exact hfound n hn

/-! ### How the growing ends -/

/-- How the graph ends to grow, without a bound on the number of layers. -/
inductive Ends (src : Source σ ε) : Names → DistributionGraph → Requests → Findings → σ →
    Except ε DistributionGraph × Findings × σ → Prop
  | done {layer : Names} {graph : DistributionGraph} {requests : Requests} {found : Findings} {s : σ}
      (hlayer : layer.isEmpty = true) : Ends src layer graph requests found s (.ok graph, found, s)
  | failed {layer : Names} {graph : DistributionGraph} {requests : Requests} {found : Findings}
      {s s' : σ} {e : ε} (hlayer : layer.isEmpty = false)
      (hlookUp : lookUp src layer found s = (.error e, s')) :
      Ends src layer graph requests found s (.error e, found, s')
  | layer {layer : Names} {graph : DistributionGraph} {requests : Requests} {found found' : Findings}
      {s s' : σ} {r : Except ε DistributionGraph × Findings × σ} (hlayer : layer.isEmpty = false)
      (hlookUp : lookUp src layer found s = (.ok found', s'))
      (hrest : Ends src (visitLayer src.environment graph layer requests found').discovered
        (graph.merge (visitLayer src.environment graph layer requests found').graph)
        (visitLayer src.environment graph layer requests found').requests found' s' r) :
      Ends src layer graph requests found s r

variable {asked : List (String × List String)} {extrasOf : String → Names} {k : Nat}
  {graph : DistributionGraph} {layer : Names} {requests : Requests} {found : Findings} {s s₀ : σ}

/-- The growing ends in one way only. -/
theorem Ends.unique {r r' : Except ε DistributionGraph × Findings × σ}
    (h : Ends src layer graph requests found s r) (h' : Ends src layer graph requests found s r') :
    r = r' := by
  induction h with
  | done hlayer =>
    cases h' with
    | done => rfl
    | failed hlayer' => rw [hlayer] at hlayer'; nomatch hlayer'
    | layer hlayer' => rw [hlayer] at hlayer'; nomatch hlayer'
  | failed hlayer hlookUp =>
    cases h' with
    | done hlayer' => rw [hlayer] at hlayer'; nomatch hlayer'
    | failed _ hlookUp' =>
      obtain ⟨he, hs⟩ := Prod.mk.inj (hlookUp.symm.trans hlookUp')
      rw [Except.error.inj he, hs]
    | layer _ hlookUp' => nomatch (Prod.mk.inj (hlookUp.symm.trans hlookUp')).1
  | layer hlayer hlookUp _ ih =>
    cases h' with
    | done hlayer' => rw [hlayer] at hlayer'; nomatch hlayer'
    | failed _ hlookUp' => nomatch (Prod.mk.inj (hlookUp.symm.trans hlookUp')).1
    | layer _ hlookUp' hrest' =>
      obtain ⟨hfound, hs⟩ := Prod.mk.inj (hlookUp.symm.trans hlookUp')
      obtain rfl := Except.ok.inj hfound
      subst hs
      exact ih hrest'

/-- What holds between two layers holds at the end. -/
theorem Ends.resolved {r : Except ε DistributionGraph × Findings × σ}
    (h : Ends src layer graph requests found s r) (hm : Met asked k graph layer.toList ∅)
    (hr : Resolved src.environment asked extrasOf graph requests) {g : DistributionGraph}
    (hg : r.1 = .ok g) : ∃ k extrasOf requests, Met asked k g [] ∅ ∧
      Resolved src.environment asked extrasOf g requests := by
  induction h generalizing k extrasOf with
  | @done layer graph requests found s hlayer =>
    obtain rfl : graph = g := Except.ok.inj hg
    rw [ExtTreeSet.isEmpty_iff.1 hlayer] at hm
    exact ⟨k, extrasOf, requests, hm, hr⟩
  | failed => nomatch hg
  | layer hlayer hlookUp hrest ih =>
    obtain ⟨hm', extrasOf', hr'⟩ := hm.visitLayer _ hr
    exact ih hm' hr' hg

/-- The names under which something may still be found and that are not resolved. -/
def unresolved (pool : List String) (g : DistributionGraph) : List String :=
  pool.filter fun n => !g.distributions.contains n

theorem mem_distributions_merge {a b : DistributionGraph} {n : String} :
    n ∈ (a.merge b).distributions ↔ n ∈ a.distributions ∨ n ∈ b.distributions :=
  ExtTreeMap.mem_union_iff

theorem length_unresolved_lt {pool : List String} {g : DistributionGraph}
    (g' : DistributionGraph) {n : String} (hsub : ∀ m ∈ g.distributions, m ∈ g'.distributions)
    (hpool : n ∈ pool) (hold : n ∉ g.distributions) (hnew : n ∈ g'.distributions) :
    (unresolved pool g').length < (unresolved pool g).length := by
  have hfilter : unresolved pool g' =
      (unresolved pool g).filter fun n => !g'.distributions.contains n := by
    rw [unresolved, unresolved, List.filter_filter]
    refine List.filter_congr fun m _ => ?_
    by_cases hm : m ∈ g.distributions
    · have hm' : g'.distributions.contains m = true := hsub m hm
      rw [hm']
      rfl
    · have hm' : g.distributions.contains m = false := Bool.eq_false_iff.2 hm
      rw [hm', Bool.not_false, Bool.and_true]
  rw [hfilter, List.length_filter_lt_length_iff_exists]
  refine ⟨n, List.mem_filter.2 ⟨hpool, ?_⟩, ?_⟩
  · rw [Bool.not_eq_true', Bool.eq_false_iff]
    exact hold
  · rw [show g'.distributions.contains n = true from hnew]
    exact Bool.false_ne_true

/-- With one layer more than there are names that something may still be found under, the bound is
never met. -/
theorem grow_ends {names : Names} {pool : List String} (hinstalls : src.Installs s₀ names)
    (hpool : ∀ n ∈ names, n ∈ pool) {count : Nat} (hm : Met asked k graph layer.toList ∅)
    (hr : Resolved src.environment asked extrasOf graph requests) (hreach : src.Reaches s₀ s)
    (hfound : FoundIn found pool)
    (hcount : layer.isEmpty = true ∨ (unresolved pool graph).length < count) :
    Ends src layer graph requests found s (grow src count layer graph requests found s) := by
  induction count generalizing layer graph requests found s k extrasOf with
  | zero => exact .done (hcount.resolve_right (Nat.not_lt_zero _))
  | succ count ih =>
    rw [grow]
    cases hlayer : layer.isEmpty with
    | true => exact .done hlayer
    | false =>
      cases hlookUp : lookUp src layer found s with
      | mk found' s' =>
        cases found' with
        | error e => exact .failed hlayer hlookUp
        | ok found' =>
          obtain ⟨hm', extrasOf', hr'⟩ := hm.visitLayer found' hr
          obtain ⟨hfound', hreach'⟩ := foundIn_lookUp hinstalls hpool hreach hfound hlookUp
          refine .layer hlayer hlookUp (ih hm' hr' hreach' hfound' ?_)
          by_cases hnone : ∀ n ∈ layer.toList, (found'[n]?).join = none
          · refine Or.inl ?_
            rw [visitLayer, discovered_foldl_visit hnone]
            rfl
          · refine Or.inr ?_
            obtain ⟨n, hn⟩ := Classical.not_forall.1 hnone
            obtain ⟨hmem, hsome⟩ := Classical.not_imp.1 hn
            have hisSome := Option.isSome_iff_ne_none.2 hsome
            have hless := length_unresolved_lt (graph.merge
                (visitLayer src.environment graph layer requests found').graph)
              (fun m hm => mem_distributions_merge.2 (Or.inl hm)) (hfound' n hisSome)
              (fun hold => hm.rest_new n hmem (Or.inl hold))
              (mem_distributions_merge.2 (Or.inr
                ((mem_distributions_foldl_visit layer.toList n).2 (Or.inr ⟨hmem, hisSome⟩))))
            have hcount' := hcount.resolve_left (by rw [hlayer]; exact Bool.false_ne_true)
            omega

end Closure

/-! ### The result -/

section Result

variable {σ ε : Type}

/-- How the graph behind declared dependencies is built, without a bound on its layers. -/
def Source.Builds (src : Source σ ε) (ds : List Dependency) (found : Findings) (s : σ)
    (r : Except ε DistributionGraph × Findings × σ) : Prop :=
  Closure.Ends src (ExtTreeSet.ofList (Closure.roots (Closure.declaredAll src.environment ds))) ∅
    (Closure.requestsOf (Closure.declaredAll src.environment ds)) found s r

/-- A graph has what the declared dependencies lead to, and nothing else. -/
structure DistributionGraph.Closes (env : Environment) (ds : List Dependency)
    (g : DistributionGraph) : Prop where
  disjoint (n : String) : n ∈ g.distributions → n ∉ g.missing
  mem_dependencies (n : String) : n ∈ g.dependencies ↔ n ∈ g.distributions
  closed (a b : String) : g.DependsOn a b → b ∈ g.distributions ∨ b ∈ g.missing
  declared (d : Dependency) (n : String) (extras : List String) : d ∈ ds →
    Closure.AsksFor env d n extras → n ∈ g.distributions ∨ n ∈ g.missing
  reachable (n : String) : n ∈ g.distributions ∨ n ∈ g.missing →
    ∃ d ∈ ds, ∃ root extras, Closure.AsksFor env d root extras ∧ ReflTransGen g.DependsOn root n
  irreflexive (n : String) : ¬g.DependsOn n n
  canonical (n : String) : n ∈ g.distributions ∨ n ∈ g.missing → Name.canonical n = n
  canonical_edge (a b : String) : g.DependsOn a b → Name.canonical a = a ∧ Name.canonical b = b
  /-- An edge is written in a requirement. -/
  edge_required (a b : String) : g.DependsOn a b → ∃ d, g.distributions[a]? = some d ∧
    ∃ text ∈ d.requiresDist, ∃ r, Requirement.parse text = .ok r ∧ r.canonicalName = b
  /-- A requirement that does not look at the extras is an edge if it applies, or has conditions
  without a value. -/
  required_edge (a : String) (d : Distribution) (text : String) (r : Requirement) :
    g.distributions[a]? = some d → text ∈ d.requiresDist → Requirement.parse text = .ok r →
      ¬r.MentionsExtra → r.canonicalName ≠ a →
        (∃ extras, r.applies env extras ≠ .ok false) → g.DependsOn a r.canonicalName

namespace Closure

variable {env : Environment} {ds : List Dependency} {g : DistributionGraph} {k : Nat}
  {extrasOf : String → Names} {requests : Requests}

theorem mem_roots {n : String} :
    n ∈ roots (declaredAll env ds) ↔ ∃ d ∈ ds, ∃ extras, AsksFor env d n extras := by
  rw [roots, List.mem_map]
  constructor
  · intro h
    obtain ⟨⟨m, extras⟩, hmem, heq⟩ := h
    subst heq
    obtain ⟨d, hd, hasks⟩ := (mem_declaredAll env ds m extras).1 hmem
    exact ⟨d, hd, extras, hasks⟩
  · intro h
    obtain ⟨d, hd, extras, hasks⟩ := h
    exact ⟨(n, extras), (mem_declaredAll env ds n extras).2 ⟨d, hd, hasks⟩, rfl⟩

theorem reflTransGen_of_walk {roots : List String} {j : Nat} {n : String}
    (h : g.Walk roots j n) : ∃ root ∈ roots, ReflTransGen g.DependsOn root n := by
  induction h with
  | root h => exact ⟨_, h, .refl⟩
  | step _ hab ih =>
    obtain ⟨root, hroot, hreach⟩ := ih
    exact ⟨root, hroot, hreach.tail hab⟩

theorem Resolved.dependsOn_iff {asked : List (String × List String)}
    (hr : Resolved env asked extrasOf g requests)
    (hmem : ∀ n, n ∈ g.dependencies ↔ n ∈ g.distributions) (a b : String) :
    g.DependsOn a b ↔ ∃ d, g.distributions[a]? = some d ∧ b ∈ targets env a (extrasOf a) d := by
  constructor
  · intro h
    obtain ⟨names, hnames, hb⟩ := h
    have ha : a ∈ g.dependencies := by
      rw [ExtTreeMap.mem_iff_isSome_getElem?, hnames]
      rfl
    have hsome := ExtTreeMap.mem_iff_isSome_getElem?.1 ((hmem a).1 ha)
    obtain ⟨d, hd⟩ := Option.isSome_iff_exists.1 hsome
    obtain rfl := Option.some.inj ((hr.edges a d hd).symm.trans hnames)
    exact ⟨d, hd, hb⟩
  · intro h
    obtain ⟨d, hd, hb⟩ := h
    exact ⟨_, hr.edges a d hd, hb⟩

/-- What holds when nothing is left to be visited. -/
theorem Met.closes (hm : Met (declaredAll env ds) k g [] ∅)
    (hr : Resolved env (declaredAll env ds) extrasOf g requests) : g.Closes env ds := by
  have hedge := hr.dependsOn_iff hm.mem_dependencies
  have hmet : ∀ n, g.Has n ∨ n ∈ ([] : List String) ∨ n ∈ (∅ : Names) → g.Has n := by
    intro n hn
    rcases hn with hn | hn | hn
    · exact hn
    · exact absurd hn List.not_mem_nil
    · exact absurd hn ExtTreeSet.not_mem_empty
  have hclosed : ∀ a b, g.DependsOn a b → g.Has b := by
    intro a b hab
    exact hmet b (hm.edges_met a b hab)
  have hreachable : ∀ n, g.Has n →
      ∃ root ∈ roots (declaredAll env ds), ReflTransGen g.DependsOn root n := by
    intro n hn
    obtain ⟨j, hj, -⟩ := hm.depth_has n hn
    exact reflTransGen_of_walk hj.1
  have hcanonical : ∀ n, g.Has n → Name.canonical n = n := by
    intro n hn
    obtain ⟨j, hj, -⟩ := hm.depth_has n hn
    cases hj.1 with
    | root hroot =>
      obtain ⟨d, -, extras, hasks⟩ := mem_roots.1 hroot
      exact hasks.canonical
    | step _ hab =>
      obtain ⟨d, -, htarget⟩ := (hedge _ n).1 hab
      exact canonical_of_mem_targets htarget
  constructor
  case disjoint => exact hm.disjoint
  case mem_dependencies => exact hm.mem_dependencies
  case closed => exact hclosed
  case declared =>
    intro d n extras hd hasks
    exact hmet n ((hm.roots_met n (mem_roots.2 ⟨d, hd, extras, hasks⟩)).imp_right Or.inl)
  case reachable =>
    intro n hn
    obtain ⟨root, hroot, hreach⟩ := hreachable n hn
    obtain ⟨d, hd, extras, hasks⟩ := mem_roots.1 hroot
    exact ⟨d, hd, root, extras, hasks, hreach⟩
  case irreflexive =>
    intro n hn
    obtain ⟨d, -, htarget⟩ := (hedge n n).1 hn
    exact notMem_targets_self htarget
  case canonical => exact hcanonical
  case canonical_edge =>
    intro a b hab
    obtain ⟨d, hd, -⟩ := (hedge a b).1 hab
    exact ⟨hcanonical a (has_of_distribution hd), hcanonical b (hclosed a b hab)⟩
  case edge_required =>
    intro a b hab
    obtain ⟨d, hd, htarget⟩ := (hedge a b).1 hab
    obtain ⟨r, hr, hname⟩ := mem_targets.1 htarget
    obtain ⟨text, htext, hparse, -⟩ := mem_demands.1 hr
    exact ⟨d, hd, text, htext, r, hparse, hname⟩
  case required_edge =>
    intro a d text r hd htext hparse hextra hname happlies
    obtain ⟨extras, happlies⟩ := happlies
    have hmay : r.mayApply env (extrasOf a) = true := by
      rw [Declared.applies_of_not_mentionsExtra hextra env extras (some (extrasOf a))] at happlies
      unfold Declared.mayApply
      cases hr : r.applies env (some (extrasOf a)) with
      | error e => rfl
      | ok b =>
        cases b with
        | true => rfl
        | false => exact absurd hr happlies
    refine (hedge a _).2 ⟨d, hd, mem_targets.2 ⟨r, ?_, rfl⟩⟩
    exact mem_demands.2 ⟨text, htext, hparse, hmay, hname⟩

end Closure

/-- The bound on the layers is not met if there are as many as names that something may be found
under, and one more. -/
theorem Source.builds_grow {src : Source σ ε} (ds : List Dependency) (found : Findings) {s : σ}
    {names : Names} (hinstalls : src.Installs s names) {count : Nat}
    (hcount : names.size + found.size < count) :
    src.Builds ds found s (Closure.grow src count
      (ExtTreeSet.ofList (Closure.roots (Closure.declaredAll src.environment ds))) ∅
      (Closure.requestsOf (Closure.declaredAll src.environment ds)) found s) := by
  let pool := names.toList ++ found.keys
  have hpool : ∀ n ∈ names, n ∈ pool := by
    intro n hn
    exact List.mem_append_left _ (ExtTreeSet.mem_toList.2 hn)
  have hfound : Closure.FoundIn found pool := by
    intro n hn
    refine List.mem_append_right _ (ExtTreeMap.mem_keys.2 ?_)
    rw [ExtTreeMap.mem_iff_isSome_getElem?]
    cases hf : found[n]? with
    | some _ => rfl
    | none =>
      rw [hf] at hn
      nomatch hn
  have hlength : pool.length = names.size + found.size := by
    rw [List.length_append, ExtTreeSet.length_toList, ExtTreeMap.length_keys]
  refine Closure.grow_ends hinstalls hpool (Closure.met_start _) (Closure.resolved_start _ _) .refl
    hfound (Or.inr ?_)
  exact Nat.lt_of_le_of_lt (List.length_filter_le _ _) (hlength ▸ hcount)

theorem Source.builds_closure {src : Source σ ε} (ds : List Dependency) (found : Findings) {s : σ}
    {names : Names} (hinstalls : src.Installs s names) (hcapacity : names.size ≤ src.capacity s) :
    src.Builds ds found s (src.closure ds found s) := by
  refine Source.builds_grow ds found hinstalls ?_
  omega

/-- For a source that knows finitely many distributions the graph behind declared dependencies is
built in finitely many layers and in one way only, which is the one of `Source.closure` if the
source bounds its distributions rightly; and a graph that is built is closed. -/
theorem Source.closure_ends_closed (src : Source σ ε) (ds : List Dependency) (found : Findings)
    (s : σ) (names : Names) (hinstalls : src.Installs s names) :
    (∃! r, src.Builds ds found s r) ∧
    (names.size ≤ src.capacity s → src.Builds ds found s (src.closure ds found s)) ∧
    ∀ g found' s', src.Builds ds found s (.ok g, found', s') → g.Closes src.environment ds := by
  have hends := builds_grow ds found hinstalls (Nat.lt_succ_self _)
  refine ⟨⟨_, hends, fun r hr => Closure.Ends.unique hr hends⟩, ?_, ?_⟩
  · intro hcapacity
    exact builds_closure ds found hinstalls hcapacity
  · intro g found' s' hbuilds
    obtain ⟨k, extrasOf, requests, hm, hr⟩ :=
      hbuilds.resolved (Closure.met_start _) (Closure.resolved_start _ _) rfl
    exact hm.closes hr

/-- A distribution with a text that is no requirement. -/
def circleApp : Distribution where
  name := "App"
  version := "1.0"
  requiresDist := ["Lib >=1", "not a requirement!"]

/-- A distribution that requires the first one, itself and a name that is not installed. -/
def circleLib : Distribution where
  name := "lib"
  version := "2.0"
  requiresDist := ["app", "lib[fast]", "Gone; python_version < '4'", "speed; extra == 'fast'"]
  providesExtras := ExtTreeSet.ofList ["fast"]

/-- Two distributions that require each other. -/
def circle : Catalog String where
  environment := ⟨fun _ => "3.10"⟩
  installed := ExtTreeMap.ofList [("app", circleApp), ("lib", circleLib)]
  refusal _ := none
  lists _ := false

/-- The dependency on `App`. -/
def circleDeclared : List Dependency :=
  [(Requirement.ofName "App").toDependency]

/-- The graph behind a dependency on `App`. -/
def circleGraph : DistributionGraph where
  distributions := circle.installed
  dependencies := ExtTreeMap.ofList [
    ("app", ExtTreeSet.ofList ["lib"]), ("lib", ExtTreeSet.ofList ["app", "gone"])]
  missing := ExtTreeSet.ofList ["gone"]

/-- A result with the parts of a graph is that graph. -/
theorem eq_ok_of_parts {r : Except ε DistributionGraph} {g : DistributionGraph}
    (h : (r.toOption.any fun a => decide (a.distributions = g.distributions) &&
      decide (a.dependencies = g.dependencies) && decide (a.missing = g.missing)) = true) :
    r = .ok g := by
  cases r with
  | error e => nomatch h
  | ok a =>
    simp only [Except.toOption, Option.any_some, Bool.and_eq_true, decide_eq_true_eq] at h
    obtain ⟨⟨hdistributions, hdependencies⟩, hmissing⟩ := h
    cases a
    cases g
    cases hdistributions
    cases hdependencies
    cases hmissing
    rfl

theorem circle_closes :
    (circle.source.closure circleDeclared ∅ []).1 = .ok circleGraph ∧
      circleGraph.Closes circle.environment circleDeclared := by
  have hok : (circle.source.closure circleDeclared ∅ []).1 = .ok circleGraph :=
    eq_ok_of_parts (by decide +kernel)
  obtain ⟨-, hbuilds, hcloses⟩ :=
    circle.source.closure_ends_closed circleDeclared ∅ [] circle.names (circle.installs [])
  have hbuilt := hbuilds (circle.size_names_le [])
  generalize circle.source.closure circleDeclared ∅ [] = r at hok hbuilt ⊢
  obtain ⟨graph, found', s'⟩ := r
  obtain rfl : graph = .ok circleGraph := hok
  exact ⟨rfl, hcloses circleGraph found' s' hbuilt⟩

end Result

end Requisite
