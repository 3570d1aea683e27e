import Mathlib
import Requisite.Proofs.Install.Requests
import Requisite.Proofs.Install.Worklist

/-!
# Extras of linked projects

A project may be linked by several requirements, each with extras of its own.  It is asked for its
dependencies once, under the extras of the requirement that it is met in first, and the others lose
what only their extras would bring.  Which requirement comes first depends on the order in which the
dependencies were declared.

* `Workspace.Offered`, `Workspace.Met` — the dependencies, and the requirements, that all extras
  together bring;
* `Workspace.KeepsExtras`, `Plan.IncludesAll` — no requirement of a plan loses its extras;
* `Workspace.Agree` — requirements that link one project ask the same of it;
* `Plan.Alike` — plans that differ in their order alone;
* **`Workspace.Plans.keepsExtras_iff`** — what a plan has if nothing is lost;
* **`Workspace.Agree.exists_plans`** — where all agree, the order makes no difference;
* **`Workspace.plan_keeps_first_extras`** — whose extras count;
* **`Workspace.not_keeps_extras`** — extras are lost, and the order matters.
-/

namespace Requisite

open Std

namespace Workspace

variable {w : Workspace} {env : Environment} {seen : List Path} {ds ds' : List Dependency}
  {rs rs' : List Requirement} {more : List (List Dependency)}

/-! ### What all extras together bring -/

/-- The dependencies that were declared, and those of projects that are linked because of others:
all that apply under the extras of some requirement that links the project. -/
inductive Offered (w : Workspace) (env : Environment) (ds : List Dependency) : Dependency → Prop
  | declared {x : Dependency} (h : x ∈ ds) : Offered w env ds x
  | project {x d : Dependency} {r : Requirement} {a : Path × List String} (hx : Offered w env ds x)
      (hr : chosen env x = .ok (some r)) (ha : r.linked? = some a)
      (hd : d ∈ w.dependencies a.1)
      (happlies : d.applies env (some (ExtTreeSet.ofList a.2)) = .ok true) :
      Offered w env ds d.released

/-- The requirements that these dependencies stand for. -/
def Met (w : Workspace) (env : Environment) (ds : List Dependency) (r : Requirement) : Prop :=
  ∃ x, Offered w env ds x ∧ chosen env x = .ok (some r)

/-- Among some requirements is all that the projects depend on which they link, under the extras of
each requirement that links the project. -/
def KeepsExtras (w : Workspace) (env : Environment) (rs : List Requirement) : Prop :=
  ∀ r ∈ rs, ∀ a ∈ r.linked?, ∀ d ∈ w.dependencies a.1,
    d.applies env (some (ExtTreeSet.ofList a.2)) = .ok true →
      ∀ r', chosen env d.released = .ok (some r') → r' ∈ rs

/-- Requirements that link the same project ask the same of it. -/
def Agree (w : Workspace) (env : Environment) (ds : List Dependency) : Prop :=
  ∀ r r', Met w env ds r → Met w env ds r' → ∀ a ∈ r.linked?, ∀ a' ∈ r'.linked?,
    a.1.same a'.1 = true → w.contribution env a.1 a.2 = w.contribution env a'.1 a'.2

theorem Offered.congr (h : ∀ x ∈ ds, x ∈ ds') {x : Dependency} (hx : Offered w env ds x) :
    Offered w env ds' x := by
  induction hx with
  | declared hx => exact .declared (h _ hx)
  | project _ hr ha hd happlies ih => exact .project ih hr ha hd happlies

theorem Met.congr (h : ∀ x ∈ ds, x ∈ ds') {r : Requirement} (hr : Met w env ds r) :
    Met w env ds' r := by
  obtain ⟨x, hx, hchosen⟩ := hr
  exact ⟨x, hx.congr h, hchosen⟩

/-! ### A plan has no more than that -/

/-- What is offered with a level is offered with the next one. -/
theorem Reads.offered {declared : List Dependency} (h : Reads w env seen ds rs more)
    (hds : ∀ x ∈ ds, Offered w env declared x) :
    ∀ x ∈ more.flatten, Offered w env declared x := by
  intro x hx
  obtain ⟨a, ha, d, hd, happlies, rfl⟩ := h.mem_flatten_iff.1 hx
  obtain ⟨r, hr, hlinked⟩ := exists_of_mem_fresh ha
  obtain ⟨y, hy, hchosen⟩ := (mem_requested h.requested).1 hr
  exact .project (hds y hy) hchosen hlinked hd happlies

theorem Plans.met {declared : List Dependency} (h : Plans w env seen ds rs)
    (hds : ∀ x ∈ ds, Offered w env declared x) : ∀ r ∈ rs, Met w env declared r := by
  induction h with
  | done => nofun
  | @level seen ds rs rs' more hne hlevel hnext ih =>
    refine List.forall_mem_append.2 ⟨fun r hr => ?_, ih (hlevel.offered hds)⟩
    obtain ⟨x, hx, hchosen⟩ := (mem_requested hlevel.requested).1 hr
    exact ⟨x, hds x hx, hchosen⟩

/-- A plan that loses no extras has all requirements that can be met, and no other plan has. -/
theorem Plans.keepsExtras_iff (h : Plans w env [] ds rs) :
    KeepsExtras w env rs ↔ ∀ r, Met w env ds r → r ∈ rs := by
  constructor
  · rintro hkeeps r ⟨x, hx, hchosen⟩
    induction hx generalizing r with
    | declared hx =>
      obtain ⟨more, hreads⟩ := h.reads
      exact (mem_requested hreads.requested).2 ⟨_, List.mem_append_left _ hx, hchosen⟩
    | project _ hr ha hd happlies ih => exact hkeeps _ (ih _ hr) _ ha _ hd happlies r hchosen
  · intro hall r hr a ha d hd happlies r' hchosen
    obtain ⟨x, hx, hr⟩ := h.met (fun x hx => .declared hx) r hr
    exact hall r' ⟨d.released, .project hx hr ha hd happlies, hchosen⟩

/-! ### Requirements that agree -/

theorem Agree.congr (h : Agree w env ds) (hds : ∀ x ∈ ds', x ∈ ds) : Agree w env ds' :=
  fun r r' hr hr' => h r r' (hr.congr hds) (hr'.congr hds)

/-- Where all agree, every requirement that links a project has what the project contributes under
its own extras. -/
theorem Agree.exists_contribution (h : Agree w env ds) (hplans : Plans w env [] ds rs)
    (hreads : Reads w env [] (ds ++ more.flatten) rs more) {r : Requirement} (hr : r ∈ rs)
    {a : Path × List String} (ha : r.linked? = some a) :
    ∃ contributed ∈ more, w.contribution env a.1 a.2 = .ok contributed := by
  have hmet := hplans.met fun x hx => .declared hx
  rcases exists_mem_fresh [] hr ha with hseen | ⟨b, hb, hsame⟩
  · nomatch hseen
  · obtain ⟨r', hr', hb'⟩ := exists_of_mem_fresh hb
    obtain ⟨contributed, hcontributed⟩ := Outcome.of_mapM hreads.contributed hb
    refine ⟨contributed, Outcome.mem_of_mapM_of_eq hreads.contributed hb hcontributed, ?_⟩
    rw [← h r' r (hmet r' hr') (hmet r hr) b hb' a ha hsame]
    exact hcontributed

/-- Where all agree, whatever is offered is read. -/
theorem Agree.mem_of_offered (h : Agree w env ds) (hplans : Plans w env [] ds rs)
    (hreads : Reads w env [] (ds ++ more.flatten) rs more) {x : Dependency}
    (hx : Offered w env ds x) : x ∈ ds ++ more.flatten := by
  induction hx with
  | declared hx => exact List.mem_append_left _ hx
  | @project x d r a _ hr ha hd happlies ih =>
    have hmem : r ∈ rs := (mem_requested hreads.requested).2 ⟨x, ih, hr⟩
    obtain ⟨contributed, hcontributed, hmore⟩ := h.exists_contribution hplans hreads hmem ha
    refine List.mem_append_right _ (List.mem_flatten.2 ⟨contributed, hcontributed, ?_⟩)
    exact (mem_contribution hmore).2 ⟨d, hd, happlies, rfl⟩

/-- Where all agree, no extras are lost. -/
theorem Agree.keepsExtras (h : Agree w env ds) (hplans : Plans w env [] ds rs) :
    KeepsExtras w env rs := by
  obtain ⟨more, hreads⟩ := hplans.reads
  refine hplans.keepsExtras_iff.2 ?_
  rintro r ⟨x, hx, hchosen⟩
  exact (mem_requested hreads.requested).2 ⟨x, h.mem_of_offered hplans hreads hx, hchosen⟩

/-- A plan that is refused is so because of a dependency that is offered. -/
theorem LevelByLevel.exists_blocks {declared : List Dependency} {r : Except PlanError Plan}
    (h : LevelByLevel w env seen ds r) {e : PlanError} (he : r = .error e)
    (hds : ∀ x ∈ ds, Offered w env declared x) :
    ∃ x seen', Offered w env declared x ∧ Blocks w env seen' x e := by
  induction h with
  | done => nomatch he
  | @level seen ds rs more r hne hlevel hnext ih =>
    cases r with
    | error e' =>
      obtain rfl := Except.error.inj he
      exact ih rfl (hlevel.offered hds)
    | ok plan => nomatch he
  | refused hrefuses =>
    obtain rfl := Except.error.inj he
    obtain ⟨before, x, after, rs, more, rfl, -, hblocks⟩ := hrefuses
    exact ⟨x, _, hds x (List.mem_append_right _ (List.mem_cons_self ..)), hblocks⟩

/-- Where all agree, no dependency that is offered is at fault. -/
theorem Agree.not_blocks (h : Agree w env ds) (hplans : Plans w env [] ds rs) {x : Dependency}
    (hx : Offered w env ds x) {e : PlanError} : ¬Blocks w env seen x e := by
  obtain ⟨more, hreads⟩ := hplans.reads
  have hmem := h.mem_of_offered hplans hreads hx
  have hrequested : ∀ {r}, chosen env x = .ok (some r) → r ∈ rs :=
    fun hr => (mem_requested hreads.requested).2 ⟨x, hmem, hr⟩
  intro hblocks
  cases hblocks with
  | undecided hx =>
    obtain ⟨o, ho⟩ := exists_chosen hreads.requested hmem
    nomatch hx.symm.trans ho
  | notDirectory hx hr hd =>
    have hdirectory := hreads.isDirectory _ (hrequested hx) _ hr
    exact Bool.false_ne_true (hd.symm.trans hdirectory)
  | contribution hx hr _ _ he =>
    obtain ⟨contributed, -, hmore⟩ := h.exists_contribution hplans hreads (hrequested hx) hr
    nomatch he.symm.trans hmore

/-- Where all agree, the same dependencies in any order stand for the same requirements. -/
theorem Agree.exists_plans (h : Agree w env ds) (hplans : Plans w env [] ds rs)
    (hds : ∀ x, x ∈ ds' ↔ x ∈ ds) :
    ∃ rs', Plans w env [] ds' rs' ∧ ∀ r, r ∈ rs' ↔ r ∈ rs := by
  have hsub : ∀ x ∈ ds', x ∈ ds := fun x => (hds x).1
  cases hplan : w.plan env ds' with
  | error e =>
    obtain ⟨x, seen', hx, hblocks⟩ :=
      (levelByLevel_iff.2 hplan.symm).exists_blocks rfl fun x hx => .declared hx
    exact absurd hblocks (h.not_blocks hplans (hx.congr hsub))
  | ok plan =>
    obtain ⟨rs', hplans', -⟩ := plan_eq_ok_iff.1 hplan
    refine ⟨rs', hplans', fun r => ⟨fun hr => ?_, fun hr => ?_⟩⟩
    · refine hplans.keepsExtras_iff.1 (h.keepsExtras hplans) r ?_
      exact (hplans'.met (fun x hx => .declared hx) r hr).congr hsub
    · refine hplans'.keepsExtras_iff.1 ((h.congr hsub).keepsExtras hplans') r ?_
      exact (hplans.met (fun x hx => .declared hx) r hr).congr fun x => (hds x).2

end Workspace

/-! ### Whose extras count -/

namespace Plan

/-- The plan includes what the projects depend on that are linked, under the extras of each
requirement that links the project.  Choices are left out. -/
def IncludesAll (w : Workspace) (env : Environment) (rs : List Requirement) (plan : Plan) : Prop :=
  ∀ r ∈ rs, ∀ a ∈ r.linked?, ∀ d ∈ w.dependencies a.1,
    d.applies env (some (ExtTreeSet.ofList a.2)) = .ok true →
      ∀ origin, d.subject = .one origin → plan.Includes (d.withSubject origin)

/-- Two plans ask pip for the same things and link the same projects, maybe in another order. -/
def Alike (plan plan' : Plan) : Prop :=
  (∀ x, x ∈ plan.arguments ↔ x ∈ plan'.arguments) ∧ ∀ p, plan.links p = plan'.links p

end Plan

namespace Workspace

/-- A dependency of a project is included if it is planned without its markers. -/
theorem includes_of_chosen {d : Dependency} {extras : Option Names}
    (happlies : d.applies env extras = .ok true)
    (hplanned : ∀ r, chosen env d.released = .ok (some r) → r ∈ rs) {origin : Origin}
    (horigin : d.subject = .one origin) : (ofLevel [] rs).Includes (d.withSubject origin) := by
  have hchosen : chosen env d.released = .ok (some (d.released.withSubject origin)) := by
    rw [chosen_released happlies, horigin]
  have hincludes := includes_ofLevel (hplanned _ hchosen)
  -- what a requirement asks for does not depend on its markers
  exact hincludes

theorem KeepsExtras.includesAll (h : KeepsExtras w env rs) :
    (ofLevel [] rs).IncludesAll w env rs :=
  fun r hr a ha d hd happlies _ => includes_of_chosen happlies (h r hr a ha d hd happlies)

/-- Plans of the same requirements are alike. -/
theorem alike_ofLevel (h : ∀ r, r ∈ rs' ↔ r ∈ rs) : (ofLevel [] rs').Alike (ofLevel [] rs) := by
  constructor
  · intro x
    simp only [ofLevel, List.mem_flatMap, h]
  · intro p
    rw [Bool.eq_iff_iff, links_ofLevel, links_ofLevel]
    simp only [h]

/-- Each project of a plan is asked for its dependencies under the extras of one requirement, the
first that links the project, and the plan includes what it depends on under these.  Nothing is lost
exactly if the plan stands for all that the extras of all requirements bring together.  That is so
where requirements that link the same project ask the same of it; the plan is then the same in
whatever order the dependencies are declared, and however often each of them is. -/
theorem plan_keeps_first_extras {plan : Plan} (h : w.plan env ds = .ok plan) :
    ∃ rs more, Plans w env [] ds rs ∧ plan = ofLevel [] rs ∧
      Reads w env [] (ds ++ more.flatten) rs more ∧
      (∀ r ∈ rs, ∀ a ∈ r.linked?, ∃ first ∈ fresh [] rs, first.1.same a.1 = true) ∧
      (∀ first ∈ fresh [] rs, ∀ d ∈ w.dependencies first.1,
        d.applies env (some (ExtTreeSet.ofList first.2)) = .ok true →
          ∀ origin, d.subject = .one origin → plan.Includes (d.withSubject origin)) ∧
      (KeepsExtras w env rs ↔ ∀ r, Met w env ds r → r ∈ rs) ∧
      (KeepsExtras w env rs → plan.IncludesAll w env rs) ∧
      (Agree w env ds → KeepsExtras w env rs ∧ ∀ ds', (∀ x, x ∈ ds' ↔ x ∈ ds) →
        ∃ plan', w.plan env ds' = .ok plan' ∧ plan'.Alike plan) := by
  obtain ⟨rs, hrs, rfl⟩ := plan_eq_ok_iff.1 h
  obtain ⟨more, hreads⟩ := hrs.reads
  refine ⟨rs, more, hrs, rfl, hreads, fun r hr a ha => ?_, fun first hfirst d hd happlies => ?_,
    hrs.keepsExtras_iff, KeepsExtras.includesAll, fun hagree => ⟨hagree.keepsExtras hrs, ?_⟩⟩
  · exact (exists_mem_fresh [] hr ha).resolve_left Bool.false_ne_true
  · have hmem := List.mem_append_right ds
      (hreads.mem_flatten_iff.2 ⟨first, hfirst, d, hd, happlies, rfl⟩)
    exact fun origin => includes_of_chosen happlies fun r hr =>
      (mem_requested hreads.requested).2 ⟨_, hmem, hr⟩
  · intro ds' hds
    obtain ⟨rs', hrs', hmem⟩ := hagree.exists_plans hrs hds
    exact ⟨_, plan_eq_ok_iff.2 ⟨rs', hrs', rfl⟩, alike_ofLevel hmem⟩

end Workspace

/-! ### A project with a dependency for an extra -/

/-- What a project depends on with its extra. -/
def sphinx : Requirement :=
  { Requirement.ofName "sphinx" with markers := some "extra == 'docs'" }

/-- A project with this dependency. -/
def documented : Workspace :=
  .ofTable (fun _ => true) [(⟨"/p"⟩, [sphinx.toDependency])]

/-- The project is linked twice. -/
def documentedTwice (extras extras' : List String) : List Dependency :=
  [(linking "p" "/p" extras).toDependency, (linking "p" "/p" extras').toDependency]

namespace Workspace

/-- Where the project is linked with the extra first, the dependency is planned. -/
theorem plans_documented (extras : List String) :
    Plans documented plainEnvironment [] (documentedTwice ["docs"] extras)
      [linking "p" "/p" ["docs"], linking "p" "/p" extras, Requirement.ofName "sphinx"] := by
  have hfirst : Reads documented plainEnvironment [] (documentedTwice ["docs"] extras)
      [linking "p" "/p" ["docs"], linking "p" "/p" extras] [[sphinx.toDependency.released]] :=
    ⟨by cbv, fun _ _ _ _ => rfl, by cbv⟩
  have hsecond : Reads documented plainEnvironment [⟨"/p"⟩] [sphinx.toDependency.released]
      [Requirement.ofName "sphinx"] [] :=
    ⟨by cbv, fun _ _ _ _ => rfl, by cbv⟩
  exact .level (by simp [documentedTwice]) hfirst (.level (by simp) hsecond .done)

theorem plan_documented (extras : List String) :
    documented.plan plainEnvironment (documentedTwice ["docs"] extras) =
      .ok ⟨["sphinx"], [⟨"/p"⟩]⟩ :=
  plan_eq_ok_iff.2 ⟨_, plans_documented extras, by cbv⟩

/-- With another extra besides, both requirements bring the dependency. -/
theorem agree_documented :
    Agree documented plainEnvironment (documentedTwice ["docs"] ["docs", "dev"]) := by
  have hcontribution : ∀ r ∈ [linking "p" "/p" ["docs"], linking "p" "/p" ["docs", "dev"],
      Requirement.ofName "sphinx"], ∀ a ∈ r.linked?,
        documented.contribution plainEnvironment a.1 a.2 = .ok [sphinx.toDependency.released] := by
    intro r hr a ha
    simp only [List.mem_cons, List.not_mem_nil, or_false] at hr
    rcases hr with rfl | rfl | rfl
    · obtain rfl := Option.some.inj ha
      cbv
    · obtain rfl := Option.some.inj ha
      cbv
    · cases ha
  have hchosen : chosen plainEnvironment sphinx.toDependency.released =
      .ok (some (Requirement.ofName "sphinx")) := by cbv
  have hmet := (plans_documented _).keepsExtras_iff.1 fun r hr a ha d hd happlies r' hr' => by
    have hmem := (mem_contribution (hcontribution r hr a ha)).2 ⟨d, hd, happlies, rfl⟩
    rw [List.mem_singleton.1 hmem, hchosen] at hr'
    obtain rfl := Option.some.inj (Except.ok.inj hr')
    simp
  intro r r' hr hr' a ha a' ha' _
  rw [hcontribution r (hmet r hr) a ha, hcontribution r' (hmet r' hr') a' ha']

/-- These two requirements may be exchanged. -/
theorem plan_keeps_first_extras_documented :
    documented.plan plainEnvironment (documentedTwice ["docs"] ["docs", "dev"]) =
        .ok ⟨["sphinx"], [⟨"/p"⟩]⟩ ∧
      ∃ plan, documented.plan plainEnvironment (documentedTwice ["docs", "dev"] ["docs"]) =
        .ok plan ∧ plan.Alike ⟨["sphinx"], [⟨"/p"⟩]⟩ := by
  have hplan := plan_documented ["docs", "dev"]
  obtain ⟨rs, more, -, -, -, -, -, -, -, hagree⟩ := plan_keeps_first_extras hplan
  refine ⟨hplan, (hagree agree_documented).2 _ fun x => ?_⟩
  exact (List.Perm.swap ..).mem_iff

/-- Extras are lost: the dependency for the extra is not in the plan if the project is linked
without the extra before, and it is if the order is the other one. -/
theorem not_keeps_extras :
    (¬∀ (w : Workspace) (env : Environment) (ds : List Dependency) (plan : Plan)
        (rs : List Requirement), w.plan env ds = .ok plan → Plans w env [] ds rs →
          plan.IncludesAll w env rs) ∧
      ¬∀ (w : Workspace) (env : Environment) (ds ds' : List Dependency) (plan : Plan), ds.Perm ds' →
        w.plan env ds = .ok plan → ∃ plan', w.plan env ds' = .ok plan' ∧ plan'.Alike plan := by
  have hreads : Reads documented plainEnvironment [] (documentedTwice [] ["docs"])
      [linking "p" "/p" [], linking "p" "/p" ["docs"]] [[]] :=
    ⟨by cbv, fun _ _ _ _ => rfl, by cbv⟩
  have hplans := Plans.level (by simp [documentedTwice]) hreads .done
  have hplan := plan_eq_ok_iff.2 ⟨_, hplans, rfl⟩
  constructor
  · intro h
    have hproject : sphinx.toDependency ∈ documented.dependencies ⟨"/p"⟩ := List.mem_singleton.2 rfl
    have hincludes := h _ _ _ _ _ hplan hplans (linking "p" "/p" ["docs"]) (by simp)
      (⟨"/p"⟩, ["docs"]) rfl _ hproject (by cbv) _ rfl
    have hinfix : ["sphinx"] <:+: [] := hincludes
    exact absurd hinfix (by decide)
  · intro h
    obtain ⟨plan, hplan', hargs, -⟩ := h _ _ _ _ _ (List.Perm.swap ..) (plan_documented [])
    obtain rfl := Except.ok.inj (hplan.symm.trans hplan')
    have hmem : "sphinx" ∈ [] := (hargs "sphinx").2 (List.mem_singleton_self _)
    exact List.not_mem_nil hmem

end Workspace

end Requisite
