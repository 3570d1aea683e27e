import Requisite.Proofs.Install.Levels
import Requisite.Proofs.Distribution.Unfolding

/-!
# The declarations that are installed

A plan and the graph of distributions select among the declared dependencies on their own: a plan
without extras and up to the first condition that has no value, the graph under the extras of each
dependency and with what has no value included.  Where all conditions have a value and none mentions
`extra`, both select the same.

* `Declared.Decided` — the conditions of a declaration have a value, whatever the extras;
* `Workspace.Selectable` — so have those of a dependency and of its options, and it links nothing;
* **`Workspace.plan_of_unlinked`** — the plan of requirements none of which links a project;
* **`Workspace.declared_eq_chosen`** — both select the same of a dependency;
* **`Workspace.plan_selects_firstLayer`** — the same of a list.
-/

namespace Requisite

open Std

/-! ### Conditions with one value -/

namespace Declared

variable {α : Type} {env : Environment} {extras extras' : Option Names} {ds : List (Declared α)}

/-- A marker mentions `extra` if one of its comparisons does. -/
theorem mentionsExtra_iff (d : Declared α) : (d.markers.any fun text =>
    (Marker.parse text).toOption.any fun m =>
      m.comparisons.any fun c => decide c.testsExtra) = true ↔ d.MentionsExtra := by
  unfold MentionsExtra Marker.MentionsExtra
  cases d.markers with
  | none => exact iff_of_false Bool.false_ne_true fun ⟨_, _, h, _⟩ => nomatch h
  | some text =>
    simp only [Option.any_some, Option.some.injEq, exists_eq_left', exists_and_left]
    cases Marker.parse text with
    | error e => simp [Except.toOption]
    | ok m => simp [Except.toOption]

instance (d : Declared α) : Decidable d.MentionsExtra :=
  decidable_of_iff _ d.mentionsExtra_iff

instance {ε : Type} (r : Except ε Bool) : Decidable (∃ b, r = .ok b) :=
  match r with
  | .ok b => isTrue ⟨b, rfl⟩
  | .error _ => isFalse nofun

/-- The conditions of a declaration have a value, which does not depend on extras. -/
def Decided (env : Environment) (d : Declared α) : Prop :=
  (∃ b, d.applies env (some ∅) = .ok b) ∧ ¬d.MentionsExtra

instance (env : Environment) (d : Declared α) : Decidable (d.Decided env) :=
  inferInstanceAs (Decidable (_ ∧ _))

theorem applicable_congr (h : ∀ d ∈ ds, d.applies env extras = d.applies env extras') :
    applicable env extras ds = applicable env extras' ds := by
  induction ds with
  | nil => rfl
  | cons d ds ih =>
    obtain ⟨hd, hds⟩ := List.forall_mem_cons.1 h
    rw [applicable, applicable, hd, ih hds]

theorem exists_applicable (h : ∀ d ∈ ds, ∃ b, d.applies env extras = .ok b) :
    ∃ rest, applicable env extras ds = .ok rest := by
  induction ds with
  | nil => exact ⟨[], rfl⟩
  | cons d ds ih =>
    obtain ⟨⟨b, hb⟩, hds⟩ := List.forall_mem_cons.1 h
    obtain ⟨rest, hrest⟩ := ih hds
    rw [applicable, hb, hrest]
    exact ⟨_, rfl⟩

theorem Decided.applies_eq {d : Declared α} (h : d.Decided env) (extras extras' : Option Names) :
    d.applies env extras = d.applies env extras' :=
  applies_of_not_mentionsExtra h.2 env extras extras'

end Declared

/-- The requirements that a dependency may stand for. -/
def Dependency.alternatives (d : Dependency) : List Requirement :=
  match d.subject with
  | .one origin => [d.withSubject origin]
  | .oneOf options => options

/-- pip is asked for something, whatever the origin of a requirement. -/
theorem Requirement.arguments_ne_nil (r : Requirement) : r.arguments ≠ [] := by
  unfold arguments
  split
  next => exact List.cons_ne_nil _ _
  next => exact List.cons_ne_nil _ _
  next => exact List.cons_ne_nil _ _
  next =>
    dsimp only
    split <;> exact List.cons_ne_nil _ _

namespace Workspace

variable {w : Workspace} {env : Environment}

/-- A plan without projects to link has one level. -/
theorem plan_of_unlinked {ds : List Dependency} {rs : List Requirement}
    (hrs : requested env ds = .ok rs) (h : ∀ r ∈ rs, r.linked? = none) :
    w.plan env ds = .ok ⟨rs.flatMap Requirement.arguments, []⟩ := by
  have hfresh : fresh [] rs = [] := by
    clear hrs
    induction rs with
    | nil => rfl
    | cons r rs ih =>
      obtain ⟨hr, hrs⟩ := List.forall_mem_cons.1 h
      rw [fresh, hr]
      exact ih hrs
  have hinstalled : rs.flatMap installed = rs.flatMap Requirement.arguments := by
    rw [List.flatMap_def, List.flatMap_def, List.map_congr_left fun r hr => ?_]
    rw [installed, h r hr]
    rfl
  have hlevel : ofLevel [] rs = ⟨rs.flatMap Requirement.arguments, []⟩ := by
    rw [ofLevel, hfresh, hinstalled]
    rfl
  have hreads : Reads w env [] ds rs [] := by
    refine ⟨hrs, fun r hr a ha => ?_, ?_⟩
    · rw [h r hr] at ha
      cases ha
    · rw [hfresh]
      rfl
  rw [← hlevel]
  symm
  rw [← levelByLevel_iff]
  cases ds with
  | nil =>
    obtain ⟨rfl, -⟩ := reads_nil.1 hreads
    exact .done
  | cons d ds =>
    have hdone : LevelByLevel w env ([] ++ (ofLevel [] rs).link) [].flatten (.ok ∅) := .done
    have hall := LevelByLevel.level (List.cons_ne_nil d ds) hreads hdone
    rw [← Plan.followedBy_empty (ofLevel [] rs)]
    exact hall

/-- The conditions of a dependency have one value, those of its options included, and it links no
project. -/
def Selectable (env : Environment) (d : Dependency) : Prop :=
  d.Decided env ∧ ∀ r ∈ d.alternatives, r.Decided env ∧ r.linked? = none

instance (env : Environment) (d : Dependency) : Decidable (Selectable env d) :=
  inferInstanceAs (Decidable (_ ∧ _))

/-- A plan selects the requirement of a dependency that the graph asks for. -/
theorem declared_eq_chosen {d : Dependency} (h : Selectable env d) : ∃ o, chosen env d = .ok o ∧
    (∀ r ∈ o, r.linked? = none) ∧
      (Closure.declared env d).map Prod.fst = o.map Declared.canonicalName := by
  obtain ⟨hdecided, halternatives⟩ := h
  obtain ⟨b, hb⟩ := hdecided.1
  let extras : Names := ExtTreeSet.ofList d.extras
  have happly : d.mayApply env extras = b := by
    rw [Declared.mayApply, hdecided.applies_eq (some extras) (some ∅), hb]
  unfold chosen Closure.declared
  dsimp only
  rw [hb, happly]
  cases b with
  | false => exact ⟨none, rfl, nofun, rfl⟩
  | true =>
    cases hsubject : d.subject with
    | one origin =>
      have hone : d.alternatives = [d.withSubject origin] := by
        rw [Dependency.alternatives, hsubject]
      rw [hone, List.forall_mem_singleton] at halternatives
      refine ⟨some (d.withSubject origin), rfl, ?_, rfl⟩
      intro r hr
      rw [← Option.mem_some_iff.1 hr]
      exact halternatives.2
    | oneOf options =>
      have hoptions : d.alternatives = options := by
        rw [Dependency.alternatives, hsubject]
      rw [hoptions] at halternatives
      have hselect : selectOption options env (some extras) =
          selectOption options env (some ∅) :=
        congrArg (Except.map List.head?)
          (Declared.applicable_congr fun r hr => (halternatives r hr).1.applies_eq _ _)
      obtain ⟨rest, hrest⟩ :=
        Declared.exists_applicable fun r hr => (halternatives r hr).1.1
      have hhead : selectOption options env (some ∅) = .ok rest.head? := by
        rw [selectOption, hrest]
        rfl
      dsimp only
      rw [hselect, hhead]
      refine ⟨rest.head?, rfl, fun r hr => ?_, ?_⟩
      · have hsome : selectOption options env (some ∅) = .ok (some r) := by
          rw [hhead, hr]
        exact (halternatives r (selectOption_eq_some hsome).1).2
      · cases rest.head? <;> rfl

/-- A plan selects requirements on the names that the graph asks for, one for each and in the same
order. -/
theorem exists_requested {ds : List Dependency} (h : ∀ d ∈ ds, Selectable env d) :
    ∃ rs, requested env ds = .ok rs ∧ (∀ r ∈ rs, r.linked? = none) ∧
      Closure.roots (Closure.declaredAll env ds) = rs.map Declared.canonicalName := by
  induction ds with
  | nil => exact ⟨[], rfl, nofun, rfl⟩
  | cons d ds ih =>
    obtain ⟨hd, hds⟩ := List.forall_mem_cons.1 h
    obtain ⟨o, ho, hunlinked, hname⟩ := declared_eq_chosen hd
    obtain ⟨rs, hrs, hunlinked', hroots⟩ := ih hds
    have hone : requested env [d] = .ok o.toList := requested_singleton.2 ⟨o, ho, rfl⟩
    refine ⟨o.toList ++ rs, requested_append.2 ⟨_, _, hone, hrs, rfl⟩, ?_, ?_⟩
    · rw [List.forall_mem_append]
      exact ⟨fun r hr => hunlinked r (Option.mem_toList.1 hr), hunlinked'⟩
    · have hcons : Closure.roots (Closure.declaredAll env (d :: ds)) =
          ((Closure.declared env d).map Prod.fst).toList ++
            Closure.roots (Closure.declaredAll env ds) := by
        unfold Closure.declaredAll
        rw [List.filterMap_cons]
        cases Closure.declared env d <;> rfl
      rw [hcons, hname, hroots, List.map_append]
      cases o <;> rfl

/-- Where all conditions have a value and none mentions `extra`, and nothing is to be linked, there
is a plan.  It asks pip for requirements on the names of the layer that the graph grows from, and on
no others. -/
theorem plan_selects_firstLayer {σ ε : Type} (w : Workspace) (src : Source σ ε)
    (ds : List Dependency) (h : ∀ d ∈ ds, Selectable src.environment d) :
    ∃ rs, requested src.environment ds = .ok rs ∧
      w.plan src.environment ds = .ok ⟨rs.flatMap Requirement.arguments, []⟩ ∧
      (∀ r ∈ rs, r.arguments ≠ []) ∧
      (∀ found s, src.closure ds found s =
        Closure.grow src (src.capacity s + found.size + 2)
          (Closure.firstLayer (Closure.declaredAll src.environment ds)) ∅
          (Closure.requestsOf (Closure.declaredAll src.environment ds)) found s) ∧
      ∀ n, n ∈ Closure.firstLayer (Closure.declaredAll src.environment ds) ↔
        ∃ r ∈ rs, r.canonicalName = n := by
  obtain ⟨rs, hrs, hunlinked, hroots⟩ := exists_requested h
  refine ⟨rs, hrs, plan_of_unlinked hrs hunlinked, fun r _ => r.arguments_ne_nil,
    fun found s => rfl, fun n => ?_⟩
  rw [Closure.firstLayer, KeySet.mem_ofList, hroots, List.mem_map]

end Workspace

/-- There are no projects. -/
def emptyWorkspace : Workspace :=
  .ofTable (fun _ => false) []

/-- Nothing is installed. -/
def emptyCatalog : Catalog String :=
  ⟨⟨fun _ => "3.10"⟩, ∅, fun _ => none, fun _ => false⟩

/-- A choice whose second option applies, a name for older interpreters, one with a marker that does
not hold, and one without conditions. -/
def selectionDeclared : List Dependency :=
  [Declared.plain "any" (.oneOf [
      { Requirement.ofName "No" with markers := some "os_name == 'nt'" },
      Requirement.ofName "Yes"]),
    { (Requirement.ofName "six").toDependency with python := (Range.parse "<3").toOption },
    { (Requirement.ofName "mock").toDependency with markers := some "python_version < '3'" },
    (Requirement.ofName "Flask_Login").toDependency]

/-- The plan has the names as they are spelled, the graph their canonical spellings. -/
theorem plan_selectionDeclared :
    emptyWorkspace.plan emptyCatalog.environment selectionDeclared =
        .ok ⟨["Yes", "Flask_Login"], []⟩ ∧
      ∀ n, n ∈ Closure.firstLayer (Closure.declaredAll emptyCatalog.environment selectionDeclared) ↔
        n ∈ ["yes", "flask-login"] := by
  obtain ⟨rs, hrs, hplan, -, -, hlayer⟩ :=
    emptyWorkspace.plan_selects_firstLayer emptyCatalog.source selectionDeclared
      (by decide +kernel)
  have hparts : (Workspace.requested emptyCatalog.environment selectionDeclared).toOption.map
      (fun rs => (rs.flatMap Requirement.arguments, rs.map Declared.canonicalName)) =
        some (["Yes", "Flask_Login"], ["yes", "flask-login"]) := by decide +kernel
  have henv : emptyCatalog.source.environment = emptyCatalog.environment := rfl
  rw [henv] at hrs hplan hlayer
  rw [hrs] at hparts
  obtain ⟨harguments, hnames⟩ := Prod.mk.inj (Option.some.inj hparts)
  rw [harguments] at hplan
  refine ⟨hplan, fun n => ?_⟩
  rw [hlayer, ← hnames, List.mem_map]

end Requisite
