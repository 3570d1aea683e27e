import Mathlib.Tactic.ByContra
import Requisite.Proofs.Distribution.Closure

/-!
# Extras that are asked for too late

A name is resolved once, when its layer is visited, and under the extras that were asked for until
then.  So the graph honours what is declared and what a distribution before it asks for: one nearer
to the declared names, or as near and first in the order of names.  A request that a later
distribution makes, or the distribution itself, is recorded and lost.

* **`Source.closure_honours_earlier_requests`** — which extras a distribution is resolved under;
* **`closure_loses_later_request`** — a request that is lost.
-/

namespace Requisite

open DistributionGraph Std

/-! ### Requests -/

/-- A declared dependency that applies asks for an extra of a name. -/
def Declares (env : Environment) (ds : List Dependency) (n x : String) : Prop :=
  ∃ d ∈ ds, ∃ extras, Closure.AsksFor env d n extras ∧ x ∈ extras

namespace DistributionGraph

/-- The distribution of `a` has a requirement that applies under the extras of `a` and asks for an
extra of a name. -/
def Wants (g : DistributionGraph) (env : Environment) (extrasOf : String → Names)
    (a n x : String) : Prop :=
  ∃ d, g.distributions[a]? = some d ∧ ∃ text ∈ d.requiresDist, ∃ r,
    Requirement.parse text = .ok r ∧ r.mayApply env (extrasOf a) = true ∧ r.canonicalName = n ∧
      x ∈ r.extras

/-- Requirements that test `extra` with `==` only are edges if they apply under the extras that
`extrasOf` says. -/
def Honours (g : DistributionGraph) (env : Environment) (extrasOf : String → Names) : Prop :=
  ∀ n d text r, g.distributions[n]? = some d → text ∈ d.requiresDist →
    Requirement.parse text = .ok r → r.canonicalName ≠ n → r.EqualsExtra →
      r.mayApply env (extrasOf n) = true → g.DependsOn n r.canonicalName

/-- Under the extras that `all` says a distribution has a requirement, one that tests `extra` with
`==` only, on a name that none of its requirements is on under those that `extrasOf` says. -/
def Loses (g : DistributionGraph) (env : Environment) (extrasOf all : String → Names) : Prop :=
  ∃ n d, g.distributions[n]? = some d ∧ ∃ text ∈ d.requiresDist, ∃ r,
    Requirement.parse text = .ok r ∧ r.canonicalName ≠ n ∧ r.EqualsExtra ∧
      r.mayApply env (all n) = true ∧ ∀ text' ∈ d.requiresDist, ∀ r',
        Requirement.parse text' = .ok r' → r'.canonicalName = r.canonicalName →
          r'.mayApply env (extrasOf n) = false

/-- Every extra that is declared or wanted, by whatever distribution, is honoured. -/
def HonoursAll (g : DistributionGraph) (env : Environment) (ds : List Dependency) : Prop :=
  ∃ extrasOf, (∀ n d, g.distributions[n]? = some d → ∀ x, x ∈ extrasOf n ↔
      x ∈ d.providesExtras ∧ (Declares env ds n x ∨ ∃ a, g.Wants env extrasOf a n x)) ∧
    g.Honours env extrasOf

/-- What is lost needs an extra that came too late. -/
theorem Loses.exists_notMem {g : DistributionGraph} {env : Environment}
    {extrasOf all : String → Names} (h : g.Loses env extrasOf all) :
    ∃ n, ∃ x ∈ all n, x ∉ extrasOf n := by
  obtain ⟨n, d, hd, text, htext, r, hparse, hne, hequals, happly, hnone⟩ := h
  by_contra hnot
  have hsub : ∀ x ∈ all n, x ∈ extrasOf n := by
    intro x hx
    by_contra hlate
    exact hnot ⟨n, x, hx, hlate⟩
  have hkept := Declared.mayApply_mono hequals hsub happly
  rw [hnone text htext r hparse rfl] at hkept
  nomatch hkept

end DistributionGraph

namespace Closure

variable {env : Environment} {ds : List Dependency} {g : DistributionGraph} {k : Nat}
  {extrasOf : String → Names} {requests : Requests}

theorem askedFor_iff {n x : String} :
    AskedFor (declaredAll env ds) n x ↔ Declares env ds n x := by
  constructor
  · intro h
    obtain ⟨extras, hmem, hx⟩ := h
    obtain ⟨d, hd, hasks⟩ := (mem_declaredAll env ds n extras).1 hmem
    exact ⟨d, hd, extras, hasks, hx⟩
  · intro h
    obtain ⟨d, hd, extras, hasks, hx⟩ := h
    exact ⟨extras, (mem_declaredAll env ds n extras).2 ⟨d, hd, hasks⟩, hx⟩

theorem requires_iff {a n x : String} :
    Requires env extrasOf g a n x ↔ g.Wants env extrasOf a n x ∧ n ≠ a := by
  constructor
  · intro h
    obtain ⟨d, hd, r, hr, hname, hx⟩ := h
    obtain ⟨text, htext, hparse, happly, hne⟩ := mem_demands.1 hr
    exact ⟨⟨d, hd, text, htext, r, hparse, happly, hname, hx⟩, hname ▸ hne⟩
  · intro h
    obtain ⟨⟨d, hd, text, htext, r, hparse, happly, hname, hx⟩, hne⟩ := h
    exact ⟨d, hd, r, mem_demands.2 ⟨text, htext, hparse, happly, hname ▸ hne⟩, hname, hx⟩

/-- The extras of a distribution are those that it provides and that are asked for before it. -/
theorem Resolved.mem_extrasOf (hr : Resolved env (declaredAll env ds) extrasOf g requests)
    {n : String} {d : Distribution} (hd : g.distributions[n]? = some d) (x : String) :
    x ∈ extrasOf n ↔ x ∈ d.providesExtras ∧ (Declares env ds n x ∨
      ∃ a, g.Before (roots (declaredAll env ds)) a n ∧ g.Wants env extrasOf a n x) := by
  rw [hr.extras n d hd x, askedFor_iff]
  refine and_congr_right fun _ => or_congr_right (exists_congr fun a => and_congr_right ?_)
  intro hbefore
  rw [requires_iff, and_iff_left hbefore.ne.symm]

/-- The edges of a distribution are its requirements on other names that apply under its extras. -/
theorem Resolved.edge_iff (hr : Resolved env (declaredAll env ds) extrasOf g requests)
    (hmem : ∀ n, n ∈ g.dependencies ↔ n ∈ g.distributions) {n : String} {d : Distribution}
    (hd : g.distributions[n]? = some d) (m : String) :
    g.DependsOn n m ↔ m ≠ n ∧ ∃ text ∈ d.requiresDist, ∃ r, Requirement.parse text = .ok r ∧
      r.mayApply env (extrasOf n) = true ∧ r.canonicalName = m := by
  rw [hr.dependsOn_iff hmem, hd]
  simp only [Option.some.injEq, exists_eq_left', mem_targets]
  constructor
  · intro h
    obtain ⟨r, hr, hname⟩ := h
    obtain ⟨text, htext, hparse, happly, hne⟩ := mem_demands.1 hr
    exact ⟨hname ▸ hne, text, htext, r, hparse, happly, hname⟩
  · intro h
    obtain ⟨hne, text, htext, r, hparse, happly, hname⟩ := h
    exact ⟨r, mem_demands.2 ⟨text, htext, hparse, happly, hname ▸ hne⟩, hname⟩

/-- Extras are honoured if the extras that the graph was resolved under lose nothing of them. -/
theorem Resolved.honours_iff (hr : Resolved env (declaredAll env ds) extrasOf g requests)
    (hmem : ∀ n, n ∈ g.dependencies ↔ n ∈ g.distributions) (all : String → Names) :
    g.Honours env all ↔ ¬g.Loses env extrasOf all := by
  constructor
  · intro hhonours hloses
    obtain ⟨n, d, hd, text, htext, r, hparse, hne, hequals, happly, hnone⟩ := hloses
    have hedge := hhonours n d text r hd htext hparse hne hequals happly
    obtain ⟨-, text', htext', r', hparse', happly', hname⟩ := (hr.edge_iff hmem hd _).1 hedge
    rw [hnone text' htext' r' hparse' hname] at happly'
    nomatch happly'
  · intro hnot n d text r hd htext hparse hne hequals happly
    refine (hr.edge_iff hmem hd _).2 ⟨hne, ?_⟩
    by_contra hnone
    refine hnot ⟨n, d, hd, text, htext, r, hparse, hne, hequals, happly, ?_⟩
    intro text' htext' r' hparse' hname
    rw [← Bool.not_eq_true]
    intro happly'
    exact hnone ⟨text', htext', r', hparse', happly', hname⟩

end Closure

/-! ### What is honoured -/

variable {σ ε : Type}

/-- The graph behind declared dependencies is resolved under the extras that were declared or were
asked for by a distribution before: these and no others decide the edges.  Extras are honoured if
and only if these lose nothing of them, what is lost needs an extra that came too late, and
everything that is asked for is honoured if no distribution wants an extra too late. -/
theorem Source.closure_honours_earlier_requests (src : Source σ ε) (ds : List Dependency)
    (found : Findings) (s : σ) {g : DistributionGraph} {found' : Findings} {s' : σ}
    (h : src.Builds ds found s (.ok g, found', s')) :
    ∃ extrasOf,
      (∀ n d, g.distributions[n]? = some d → ∀ x, x ∈ extrasOf n ↔ x ∈ d.providesExtras ∧
        (Declares src.environment ds n x ∨
          ∃ a, g.Before (Closure.roots (Closure.declaredAll src.environment ds)) a n ∧
            g.Wants src.environment extrasOf a n x)) ∧
      (∀ n d, g.distributions[n]? = some d → ∀ m, g.DependsOn n m ↔ m ≠ n ∧
        ∃ text ∈ d.requiresDist, ∃ r, Requirement.parse text = .ok r ∧
          r.mayApply src.environment (extrasOf n) = true ∧ r.canonicalName = m) ∧
      (∀ all, g.Honours src.environment all ↔ ¬g.Loses src.environment extrasOf all) ∧
      (∀ all, g.Loses src.environment extrasOf all → ∃ n, ∃ x ∈ all n, x ∉ extrasOf n) ∧
      ((∀ n d, g.distributions[n]? = some d → ∀ a, ∀ x ∈ d.providesExtras,
        g.Wants src.environment extrasOf a n x → x ∈ extrasOf n) →
          g.HonoursAll src.environment ds) := by
  obtain ⟨k, extrasOf, requests, hm, hr⟩ :=
    h.resolved (Closure.met_start _) (Closure.resolved_start _ _) rfl
  have hextras := fun n d (hd : g.distributions[n]? = some d) => hr.mem_extrasOf hd
  have hedge := fun n d (hd : g.distributions[n]? = some d) => hr.edge_iff hm.mem_dependencies hd
  have hhonours := hr.honours_iff hm.mem_dependencies
  refine ⟨extrasOf, hextras, hedge, hhonours, fun all h => h.exists_notMem, fun hlate => ?_⟩
  have hnothing : ¬g.Loses src.environment extrasOf extrasOf := by
    intro hloses
    obtain ⟨n, x, hx, hnot⟩ := hloses.exists_notMem
    exact hnot hx
  refine ⟨extrasOf, fun n d hd x => ?_, (hhonours extrasOf).2 hnothing⟩
  constructor
  · intro hx
    obtain ⟨hprovides, hasked⟩ := (hextras n d hd x).1 hx
    refine ⟨hprovides, hasked.imp_right ?_⟩
    intro hwants
    obtain ⟨a, -, hwants⟩ := hwants
    exact ⟨a, hwants⟩
  · intro hx
    obtain ⟨hprovides, hdeclared | ⟨a, hwants⟩⟩ := hx
    · exact (hextras n d hd x).2 ⟨hprovides, Or.inl hdeclared⟩
    · exact hlate n d hd a x hprovides hwants

/-! ### A request that is lost -/

/-- A distribution with a requirement for one of its extras. -/
def lateDocs : Distribution where
  name := "a"
  version := "1.0"
  requiresDist := ["tool; extra == 'docs'"]
  providesExtras := ExtTreeSet.ofList ["docs"]

/-- A distribution that asks for an extra of the first one, and for one of another one. -/
def lateUser : Distribution where
  name := "b"
  version := "1.0"
  requiresDist := ["a[docs]", "c[fast]"]

/-- Another distribution with a requirement for one of its extras. -/
def lateFast : Distribution where
  name := "c"
  version := "1.0"
  requiresDist := ["speed; extra == 'fast'"]
  providesExtras := ExtTreeSet.ofList ["fast"]

/-- The distribution that is asked for an extra comes before the one that asks, and after it. -/
def late : Catalog String where
  environment := ⟨fun _ => "3.10"⟩
  installed := ExtTreeMap.ofList [("a", lateDocs), ("b", lateUser), ("c", lateFast)]
  refusal _ := none
  lists _ := false

/-- The dependencies on `a` and `b`. -/
def lateDeclared : List Dependency :=
  [(Requirement.ofName "a").toDependency, (Requirement.ofName "b").toDependency]

/-- The graph behind the dependencies on `a` and `b`: `a` leads to nothing, `c` to `speed`. -/
def lateGraph : DistributionGraph where
  distributions := late.installed
  dependencies := ExtTreeMap.ofList [
    ("a", ∅), ("b", ExtTreeSet.ofList ["a", "c"]), ("c", ExtTreeSet.ofList ["speed"])]
  missing := ExtTreeSet.ofList ["speed"]

theorem closure_late : (late.source.closure lateDeclared ∅ []).1 = .ok lateGraph :=
  eq_ok_of_parts (by decide +kernel)

theorem late_distributions : lateGraph.distributions["a"]? = some lateDocs ∧
    lateGraph.distributions["b"]? = some lateUser ∧
      lateGraph.distributions["c"]? = some lateFast := by
  decide +kernel

theorem late_dependencies : lateGraph.dependencies["a"]? = some ∅ ∧
    lateGraph.dependencies["b"]? = some (ExtTreeSet.ofList ["a", "c"]) := by
  decide +kernel

/-- The requirement of `a` applies under its extra, which it tests with `==` only. -/
theorem late_requirement : ∃ r, Requirement.parse "tool; extra == 'docs'" = .ok r ∧
    r.canonicalName = "tool" ∧ r.EqualsExtra ∧
      r.mayApply late.environment (ExtTreeSet.ofList ["docs"]) = true := by
  have h : ((Requirement.parse "tool; extra == 'docs'").toOption.any fun r =>
      decide (r.canonicalName = "tool") && decide r.EqualsExtra &&
        r.mayApply late.environment (ExtTreeSet.ofList ["docs"])) = true := by
    decide +kernel
  cases hr : Requirement.parse "tool; extra == 'docs'" with
  | error e =>
    rw [hr] at h
    nomatch h
  | ok r =>
    rw [hr] at h
    simp only [Except.toOption, Option.any_some, Bool.and_eq_true, decide_eq_true_eq] at h
    exact ⟨r, rfl, h.1.1, h.1.2, h.2⟩

/-- What `b` asks for does not depend on its own extras. -/
theorem late_wants (extrasOf : String → Names) :
    lateGraph.Wants late.environment extrasOf "b" "a" "docs" ∧
      lateGraph.Wants late.environment extrasOf "b" "c" "fast" := by
  have hb := late_distributions.2.1
  have hwants : ∀ text ∈ lateUser.requiresDist, ∀ n x,
      ((Requirement.parse text).toOption.any fun r => r.python.isNone && r.markers.isNone &&
        decide (r.canonicalName = n) && decide (x ∈ r.extras)) = true →
          lateGraph.Wants late.environment extrasOf "b" n x := by
    intro text htext n x h
    cases hr : Requirement.parse text with
    | error e =>
      rw [hr] at h
      nomatch h
    | ok r =>
      rw [hr] at h
      simp only [Except.toOption, Option.any_some, Bool.and_eq_true, decide_eq_true_eq,
        Option.isNone_iff_eq_none] at h
      obtain ⟨⟨⟨hpython, hmarkers⟩, hname⟩, hx⟩ := h
      exact ⟨lateUser, hb, text, htext, r, hr, r.mayApply_of_unconditional hpython hmarkers _ _,
        hname, hx⟩
  exact ⟨hwants "a[docs]" (by decide) "a" "docs" (by decide +kernel),
    hwants "c[fast]" (by decide) "c" "fast" (by decide +kernel)⟩

theorem late_not_dependsOn : ¬lateGraph.DependsOn "a" "tool" := by
  intro h
  obtain ⟨names, hnames, hmem⟩ := h
  obtain rfl := Option.some.inj (late_dependencies.1.symm.trans hnames)
  exact ExtTreeSet.not_mem_empty hmem

/-- With its extra `a` would lead to `tool`. -/
theorem late_notMem {extrasOf : String → Names}
    (h : lateGraph.Honours late.environment extrasOf) : "docs" ∉ extrasOf "a" := by
  intro hdocs
  have ha := late_distributions.1
  obtain ⟨r, hparse, hname, hequals, happly⟩ := late_requirement
  have hsub : ∀ x ∈ (ExtTreeSet.ofList ["docs"] : Names), x ∈ extrasOf "a" := by
    intro x hx
    rw [KeySet.mem_ofList, List.mem_singleton] at hx
    rw [hx]
    exact hdocs
  have hne : r.canonicalName ≠ "a" := by
    rw [hname]
    decide
  have hedge := h "a" lateDocs _ r ha (List.mem_singleton_self _) hparse hne hequals
    (Declared.mayApply_mono hequals hsub happly)
  rw [hname] at hedge
  exact late_not_dependsOn hedge

/-- `b` is declared and `c` is not, so that `b` comes first. -/
theorem late_before :
    lateGraph.Before (Closure.roots (Closure.declaredAll late.environment lateDeclared)) "b" "c" := by
  have hroots : Closure.roots (Closure.declaredAll late.environment lateDeclared) = ["a", "b"] := by
    decide +kernel
  rw [hroots]
  have hb := late_dependencies.2
  have hwalk : lateGraph.Walk ["a", "b"] 0 "b" := .root (by decide)
  refine ⟨0, 1, ⟨hwalk, fun j _ => Nat.zero_le j⟩, ⟨.step hwalk ⟨_, hb, ?_⟩, fun j hj => ?_⟩,
    Or.inl Nat.zero_lt_one⟩
  · rw [KeySet.mem_ofList]
    decide
  · cases hj with
    | root hc => exact absurd hc (by decide)
    | step _ _ => exact Nat.succ_le_succ (Nat.zero_le _)

/-- The extra of `a` that `b` asks for is not honoured. -/
theorem closure_loses_later_request :
    ∃ g, (late.source.closure lateDeclared ∅ []).1 = .ok g ∧
      ¬g.HonoursAll late.environment lateDeclared := by
  refine ⟨lateGraph, closure_late, fun h => ?_⟩
  obtain ⟨extrasOf, hextras, hhonours⟩ := h
  have ha := late_distributions.1
  have hwants := (late_wants extrasOf).1
  exact late_notMem hhonours ((hextras "a" lateDocs ha "docs").2 ⟨by decide, Or.inr ⟨"b", hwants⟩⟩)

/-- `a` is resolved without the extra that `b` asks for, and `c` with it. -/
theorem closure_honours_late : ∃ extrasOf : String → Names,
    "docs" ∉ extrasOf "a" ∧ "fast" ∈ extrasOf "c" ∧
      lateGraph.Honours late.environment extrasOf := by
  have hbuilds := Source.builds_closure lateDeclared ∅ (late.installs []) (late.size_names_le [])
  have hok := closure_late
  generalize late.source.closure lateDeclared ∅ [] = r at hok hbuilds
  obtain ⟨graph, found', s'⟩ := r
  obtain rfl : graph = .ok lateGraph := hok
  obtain ⟨extrasOf, hextras, -, hhonours, hlost, -⟩ :=
    late.source.closure_honours_earlier_requests lateDeclared ∅ [] hbuilds
  have hhonoured : lateGraph.Honours late.environment extrasOf := by
    refine (hhonours extrasOf).2 fun hloses => ?_
    obtain ⟨n, x, hx, hnot⟩ := hlost extrasOf hloses
    exact hnot hx
  have hc := late_distributions.2.2
  have hwants := (late_wants extrasOf).2
  refine ⟨extrasOf, late_notMem hhonoured, ?_, hhonoured⟩
  exact (hextras "c" lateFast hc "fast").2 ⟨by decide, Or.inr ⟨"b", late_before, hwants⟩⟩

end Requisite
