import Mathlib
import Requisite.Proofs.Install.Requests
import Requisite.Proofs.Install.Worklist
import Requisite.Proofs.Marker.Extras

/-!
# Choices of linked projects

Whether a dependency of a linked project applies is decided under the extras that are asked of the
project.  Its options are decided on later, when the queue comes to it, and without extras: an
option that is meant for an extra is passed over, and one that is meant for its absence is taken.

* **`Workspace.plan_selects_without_extras`** — the option that a plan includes for a choice;
* **`Workspace.not_selects_with_extras`** — it need not be the first one that applies under the
  extras of the project.
-/

namespace Requisite

open Std

namespace Workspace

/-- The first option that holds does not depend on extras that no option looks at. -/
theorem find?_holds_congr {env : Environment} {options : List Requirement}
    (h : ∀ r ∈ options, ¬r.MentionsExtra) (extras extras' : Option Names) :
    options.find? (Declared.holds env extras) = options.find? (Declared.holds env extras') := by
  rw [← List.head?_filter, ← List.head?_filter]
  refine congrArg List.head? (List.filter_congr fun r hr => ?_)
  rw [Declared.holds, Declared.holds,
    Declared.applies_of_not_mentionsExtra (h r hr) env extras extras']

/-- A plan is read from what was declared and from what the linked projects contribute.  Among the
latter is every choice of a project that applies under the extras asked of the project; it stands
for its first option that holds without extras, which the plan includes, and for no other.  That is
the first option that holds under the extras of the project if no option mentions `extra`. -/
theorem plan_selects_without_extras {w : Workspace} {env : Environment} {ds : List Dependency}
    {plan : Plan} (h : w.plan env ds = .ok plan) :
    ∃ rs more, Plans w env [] ds rs ∧ plan = ofLevel [] rs ∧
      Reads w env [] (ds ++ more.flatten) rs more ∧
      ∀ a ∈ fresh [] rs, ∀ d ∈ w.dependencies a.1,
        d.applies env (some (ExtTreeSet.ofList a.2)) = .ok true →
          ∀ options, d.subject = .oneOf options →
            d.released ∈ more.flatten ∧
            chosen env d.released = .ok (options.find? (Declared.holds env (some ∅))) ∧
            (∀ r ∈ options.find? (Declared.holds env (some ∅)), r ∈ rs ∧ plan.Includes r) ∧
            ((∀ r ∈ options, ¬r.MentionsExtra) →
              ∀ r ∈ options.find? (Declared.holds env (some (ExtTreeSet.ofList a.2))),
                plan.Includes r) := by
  obtain ⟨rs, hrs, rfl⟩ := plan_eq_ok_iff.1 h
  obtain ⟨more, hreads⟩ := hrs.reads
  refine ⟨rs, more, hrs, rfl, hreads, fun a ha d hd happlies options hoptions => ?_⟩
  have hmem : d.released ∈ more.flatten := hreads.mem_flatten_iff.2 ⟨a, ha, d, hd, happlies, rfl⟩
  have hread : d.released ∈ ds ++ more.flatten := List.mem_append_right ds hmem
  obtain ⟨o, ho⟩ := exists_chosen hreads.requested hread
  have hselect : selectOption options env (some ∅) = .ok o := by
    rw [← ho, chosen_released happlies, hoptions]
  obtain rfl := selectOption_eq_find? hselect
  have hincludes : ∀ r ∈ options.find? (Declared.holds env (some ∅)),
      r ∈ rs ∧ (ofLevel [] rs).Includes r := by
    intro r hr
    rw [Option.mem_def] at hr
    rw [hr] at ho
    have hmem := (mem_requested hreads.requested).2 ⟨d.released, hread, ho⟩
    exact ⟨hmem, includes_ofLevel hmem⟩
  refine ⟨hmem, ho, hincludes, fun hextra r hr => ?_⟩
  rw [find?_holds_congr hextra _ (some ∅)] at hr
  exact (hincludes r hr).2

/-! ### A project with a choice for an extra -/

end Workspace

/-- A choice with an option for an extra and one for everybody, and a choice under the extra. -/
def guidedChoices : List Dependency :=
  [Declared.plain "doc" (.oneOf [
      { Requirement.ofName "doc" with extras := ["full"], markers := some "extra == 'docs'" },
      Requirement.ofName "doc"]),
    { Declared.plain "tool" (.oneOf [
        { Requirement.ofName "tool" with markers := some "python_version < '3'" },
        { Requirement.ofName "tool" with extras := ["new"] }]) with
      markers := some "extra == 'docs'" }]

/-- A project with these choices. -/
def guided : Workspace :=
  .ofTable (fun _ => true) [(⟨"/p"⟩, guidedChoices)]

/-- The project is linked with the extra. -/
def guidedDeclared : List Dependency :=
  [(linking "p" "/p" ["docs"]).toDependency]

/-- The project, and an option for each of its choices. -/
def guidedRequirements : List Requirement :=
  [linking "p" "/p" ["docs"], Requirement.ofName "doc",
    { Requirement.ofName "tool" with extras := ["new"] }]

namespace Workspace

theorem plans_guided :
    Plans guided plainEnvironment [] guidedDeclared guidedRequirements := by
  have hfirst : Reads guided plainEnvironment [] guidedDeclared [linking "p" "/p" ["docs"]]
      [guidedChoices.map Declared.released] :=
    ⟨by cbv, fun _ _ _ _ => rfl, by cbv⟩
  have hsecond : Reads guided plainEnvironment [⟨"/p"⟩] (guidedChoices.map Declared.released)
      [Requirement.ofName "doc", { Requirement.ofName "tool" with extras := ["new"] }] [] :=
    ⟨by cbv, fun _ _ _ _ => rfl, by cbv⟩
  have hrest := Plans.level (by simp [guidedChoices]) hsecond .done
  exact .level (by simp [guidedDeclared]) hfirst hrest

theorem plan_guided : guided.plan plainEnvironment guidedDeclared =
    .ok ⟨["doc", "tool[new]"], [⟨"/p"⟩]⟩ :=
  plan_eq_ok_iff.2 ⟨guidedRequirements, plans_guided, by cbv⟩

/-- For `doc` the option without the extra is planned, though the extra is asked for; for `tool`,
whose options do not mention extras, it is the first one that holds. -/
theorem plan_selects_guided :
    guided.plan plainEnvironment guidedDeclared = .ok ⟨["doc", "tool[new]"], [⟨"/p"⟩]⟩ ∧
      ∃ rs, Plans guided plainEnvironment [] guidedDeclared rs ∧ Requirement.ofName "doc" ∈ rs ∧
        { Requirement.ofName "tool" with extras := ["new"] } ∈ rs := by
  obtain ⟨rs, more, hrs, -, -, hselects⟩ := plan_selects_without_extras plan_guided
  obtain rfl := hrs.unique plans_guided
  have hlinked : (⟨"/p"⟩, ["docs"]) ∈ fresh [] guidedRequirements := List.mem_cons_self ..
  have hdoc := hselects _ hlinked _ (List.mem_cons_self ..) (by cbv) _ rfl
  have htool := hselects _ hlinked _ (List.mem_cons_of_mem _ (List.mem_cons_self ..)) (by cbv) _ rfl
  exact ⟨plan_guided, _, hrs, (hdoc.2.2.1 _ (by cbv)).1, (htool.2.2.1 _ (by cbv)).1⟩

/-- The option that a plan includes for a choice need not be the first one that applies under the
extras of the project: one that is meant for an extra is passed over. -/
theorem not_selects_with_extras :
    ¬∀ (w : Workspace) (env : Environment) (ds : List Dependency) (plan : Plan)
        (rs : List Requirement), w.plan env ds = .ok plan → Plans w env [] ds rs →
      ∀ a ∈ fresh [] rs, ∀ d ∈ w.dependencies a.1,
        d.applies env (some (ExtTreeSet.ofList a.2)) = .ok true →
          ∀ options, d.subject = .oneOf options →
            ∀ r ∈ options.find? (Declared.holds env (some (ExtTreeSet.ofList a.2))),
              plan.Includes r := by
  intro h
  have hincludes := h guided plainEnvironment guidedDeclared _ _ plan_guided plans_guided
    (⟨"/p"⟩, ["docs"]) (List.mem_cons_self ..) _ (List.mem_cons_self ..) (by cbv) _ rfl
    { Requirement.ofName "doc" with extras := ["full"], markers := some "extra == 'docs'" }
    (by cbv)
  have hinfix : ["doc[full]"] <:+: ["doc", "tool[new]"] := hincludes
  exact absurd hinfix (by decide)

end Workspace

end Requisite
