import Requisite.Install.Linker
import Requisite.Proofs.Install.Courses
import Requisite.Proofs.Install.Worklist

/-!
# What an installation does

The events of an installation are what it asks of the linker and of the interpreters; planning asks
nothing of this kind.  So what is known of all courses is known of an installation with any linker.

* `Linker.traced`, `Runner.traced` — the same linker and the same interpreters, with a record of
  what they are asked to do;
* **`Linker.carryOut_traced`**, **`Linker.PlansFrom.traced`** — the events are what is recorded, and
  planning leaves no record;
* **`Installer.installs_linker_iff`** — a workspace is a linker, with which planning always ends;
* **`Linker.install_careful`** — an installation with any linker is careful, and does nothing if it
  may not be made or if there is no plan.
-/

namespace Requisite

variable {ω : Type}

/-! ### Records -/

/-- An installation with the record of what was done before it and by it. -/
def Installation.recorded (done : Installation × ω) (events : List Event) :
    Installation × ω × List Event :=
  (done.1, done.2, events ++ done.1.events)

theorem Installation.recorded_nothing (result : Except InstallError Int) (s : ω)
    (events : List Event) : recorded ({ result }, s) events = ({ result }, s, events) := by
  rw [recorded, List.append_nil]

/-- The interpreters with a record of their calls. -/
def Runner.traced (run : Runner ω) : Runner (ω × List Event) := fun program call (s, events) =>
  match run program call s with
  | (outcome, s) => (outcome, s, events ++ [.ran program call outcome])

theorem Runner.traced_of_eq {run : Runner ω} {program : Path} {call : Call} {outcome : Outcome}
    {s s' : ω} (h : run program call s = (outcome, s')) (events : List Event) :
    run.traced program call (s, events) = (outcome, s', events ++ [.ran program call outcome]) := by
  rw [traced, h]

namespace Linker

/-- The linker with a record of the projects that it was to link. -/
def traced (linker : Linker ω) : Linker (ω × List Event) where
  isDirectory project := fun (s, _) => linker.isDirectory project s
  dependencies project := fun (s, events) =>
    match linker.dependencies project s with
    | (answer, s) => (answer, s, events)
  link project := fun (s, events) =>
    match linker.link project s with
    | (answer, s) => (answer, s, events ++ [.linked project answer])

variable {linker : Linker ω} {env : Environment} {s s' : ω}

theorem link_traced {project : Path} {answer : Except InstallError Unit}
    (h : linker.link project s = (answer, s')) (events : List Event) :
    linker.traced.link project (s, events) = (answer, s', events ++ [.linked project answer]) := by
  show ((linker.link project s).1, (linker.link project s).2,
    events ++ [Event.linked project (linker.link project s).1]) = _
  rw [h]

theorem dependencies_traced {project : Path} {answer : Except InstallError (List Dependency)}
    (h : linker.dependencies project s = (answer, s')) (events : List Event) :
    linker.traced.dependencies project (s, events) = (answer, s', events) := by
  show ((linker.dependencies project s).1, (linker.dependencies project s).2, events) = _
  rw [h]

theorem linkAll_traced (projects : List Path) (s : ω) (events : List Event) :
    linker.traced.linkAll projects (s, events) =
      Installation.recorded (linker.linkAll projects s) events := by
  induction projects generalizing s events with
  | nil => exact (Installation.recorded_nothing (.ok 0) s events).symm
  | cons project projects ih =>
    rcases hlink : linker.link project s with ⟨e | _, s'⟩
    · rw [linkAll_of_error (link_traced hlink events), linkAll_of_error hlink]
      rfl
    · rw [linkAll_of_ok (link_traced hlink events), linkAll_of_ok hlink, ih,
        Installation.recorded, List.append_assoc]
      rfl

theorem finish_traced (executable : Path) (plan : Plan) (s : ω) (events : List Event)
    (outcome : Outcome) :
    linker.traced.finish executable plan (s, events) outcome =
      Installation.recorded (linker.finish executable plan s outcome) events := by
  cases outcome with
  | notStarted => exact (Installation.recorded_nothing _ s events).symm
  | finished code stdout stderr =>
    rw [finish, finish]
    split
    next => exact linkAll_traced plan.link s events
    next => exact (Installation.recorded_nothing _ s events).symm

/-- The events of an installation are what was asked of the linker and of the interpreters. -/
theorem carryOut_traced (run : Runner ω) (executable : Path) (options : InstallOptions)
    (plan : Plan) (s : ω) (events : List Event) :
    linker.traced.carryOut run.traced executable options plan (s, events) =
      Installation.recorded (linker.carryOut run executable options plan s) events := by
  cases hplan : plan.hasRequirements with
  | false =>
    rw [carryOut_of_unneeded hplan, carryOut_of_unneeded hplan]
    exact linkAll_traced plan.link s events
  | true =>
    cases harguments : plan.pipArguments options with
    | error e =>
      rw [carryOut_of_error hplan harguments, carryOut_of_error hplan harguments]
      exact (Installation.recorded_nothing _ s events).symm
    | ok arguments =>
      rcases hrun : run executable (.pip arguments) s with ⟨outcome, s'⟩
      rw [carryOut_of_ok hplan harguments (Runner.traced_of_eq hrun events),
        carryOut_of_ok hplan harguments hrun, finish_traced, Installation.recorded,
        List.append_assoc]
      rfl

/-! ### Planning leaves no record -/

theorem addProject_traced (d : Workspace.Draft) (project : Path) (extras : List String) (s : ω)
    (events : List Event) :
    linker.traced.addProject env d project extras (s, events) =
      ((linker.addProject env d project extras s).1, (linker.addProject env d project extras s).2,
        events) := by
  unfold addProject
  show (if !linker.isDirectory project s then _ else _) = _
  split
  next => rfl
  next =>
    split
    next => rfl
    next =>
      rcases hanswer : linker.dependencies project s with ⟨e | declared, s'⟩
      · rw [dependencies_traced hanswer]
      · rw [dependencies_traced hanswer]
        dsimp only
        cases released env extras declared <;> rfl

theorem addRequirement_traced (d : Workspace.Draft) (r : Requirement) (s : ω)
    (events : List Event) :
    linker.traced.addRequirement env d r (s, events) =
      ((linker.addRequirement env d r s).1, (linker.addRequirement env d r s).2, events) := by
  unfold addRequirement
  cases r.subject with
  | directory project develop isLinked =>
    cases isLinked with
    | false => rfl
    | true => exact addProject_traced d project r.extras s events
  | _ => rfl

theorem level_traced (xs : List Dependency) (d : Workspace.Draft) (s : ω) (events : List Event) :
    linker.traced.level env xs d (s, events) =
      ((linker.level env xs d s).1, (linker.level env xs d s).2, events) := by
  induction xs generalizing d s with
  | nil => rfl
  | cons x xs ih =>
    rw [level, level]
    cases Workspace.chosen env x with
    | error e => rfl
    | ok chosen =>
      cases chosen with
      | none => exact ih d s
      | some r =>
        dsimp only
        rw [addRequirement_traced]
        rcases linker.addRequirement env d r s with ⟨e | d, s'⟩
        · rfl
        · exact ih d s'

theorem level_traced_of_eq {xs : List Dependency} {d : Workspace.Draft}
    {answer : Except InstallError Workspace.Draft} (h : linker.level env xs d s = (answer, s'))
    (events : List Event) : linker.traced.level env xs d (s, events) = (answer, s', events) := by
  rw [level_traced, h]

/-- Nothing is linked and no interpreter is called for a plan. -/
theorem PlansFrom.traced {xs : List Dependency} {plan : Plan} {planned : Except InstallError Plan}
    (h : linker.PlansFrom env xs plan s planned s') (events : List Event) :
    linker.traced.PlansFrom env xs plan (s, events) planned (s', events) := by
  induction h with
  | refused hlevel => exact .refused (level_traced_of_eq hlevel events)
  | done hlevel hnext => exact .done (level_traced_of_eq hlevel events) hnext
  | next hlevel hnext hrest ih => exact .next (level_traced_of_eq hlevel events) hnext ih

/-- There is one plan at most. -/
theorem PlansFrom.unique {xs : List Dependency} {plan : Plan}
    {planned planned' : Except InstallError Plan} {s₁ : ω}
    (h : linker.PlansFrom env xs plan s planned s')
    (h' : linker.PlansFrom env xs plan s planned' s₁) : planned = planned' ∧ s' = s₁ := by
  induction h with
  | refused hlevel =>
    cases h' with
    | refused hlevel' =>
      obtain ⟨he, hs⟩ := Prod.mk.inj (hlevel.symm.trans hlevel')
      exact ⟨congrArg Except.error (Except.error.inj he), hs⟩
    | done hlevel' => cases hlevel.symm.trans hlevel'
    | next hlevel' => cases hlevel.symm.trans hlevel'
  | done hlevel hnext =>
    cases h' with
    | refused hlevel' => cases hlevel.symm.trans hlevel'
    | done hlevel' =>
      cases hlevel.symm.trans hlevel'
      exact ⟨rfl, rfl⟩
    | next hlevel' hnext' =>
      cases hlevel.symm.trans hlevel'
      exact absurd hnext hnext'
  | next hlevel hnext hrest ih =>
    cases h' with
    | refused hlevel' => cases hlevel.symm.trans hlevel'
    | done hlevel' hnext' =>
      cases hlevel.symm.trans hlevel'
      exact absurd hnext' hnext
    | next hlevel' hnext' hrest' =>
      cases hlevel.symm.trans hlevel'
      exact ih hrest'

end Linker

/-! ### Workspaces and other linkers -/

namespace Installer

variable (installer : Installer) (env : Environment)

theorem addProject_linker (d : Workspace.Draft) (project : Path) (extras : List String) (s : ω) :
    installer.linker.addProject env d project extras s =
      ((installer.workspace.addProject env d project extras).mapError .plan, s) := by
  unfold Linker.addProject Workspace.addProject
  show (if !installer.workspace.isDirectory project then _ else _) = _
  split
  next => rfl
  next =>
    split
    next => rfl
    next =>
      have hanswer : installer.linker.dependencies project s =
          (.ok (installer.workspace.dependencies project), s) := rfl
      have hreleased : Linker.released env extras (installer.workspace.dependencies project) =
          installer.workspace.contribution env project extras := rfl
      rw [hanswer]
      dsimp only
      rw [hreleased]
      cases installer.workspace.contribution env project extras <;> rfl

theorem addRequirement_linker (d : Workspace.Draft) (r : Requirement) (s : ω) :
    installer.linker.addRequirement env d r s =
      ((installer.workspace.addRequirement env d r).mapError .plan, s) := by
  unfold Linker.addRequirement Workspace.addRequirement
  cases r.subject with
  | directory project develop isLinked =>
    cases isLinked with
    | false => rfl
    | true => exact installer.addProject_linker env d project r.extras s
  | _ => rfl

theorem level_linker (xs : List Dependency) (d : Workspace.Draft) (s : ω) :
    installer.linker.level env xs d s =
      ((installer.workspace.level env xs d).mapError .plan, s) := by
  induction xs generalizing d with
  | nil => rfl
  | cons x xs ih =>
    rw [Linker.level, Workspace.level]
    cases Workspace.chosen env x with
    | error e => rfl
    | ok chosen =>
      cases chosen with
      | none => exact ih d
      | some r =>
        dsimp only
        rw [addRequirement_linker]
        cases installer.workspace.addRequirement env d r with
        | error e => rfl
        | ok d => exact ih d

theorem plansFrom_linker (xs : List Dependency) (plan : Plan) (s : ω) :
    installer.linker.PlansFrom env xs plan s
      ((installer.workspace.planFrom env xs plan).mapError .plan) s := by
  have hlevel := installer.level_linker env xs ⟨plan, []⟩ s
  induction xs, plan using Workspace.planFrom.induct installer.workspace env with
  | case1 xs plan e he =>
    rw [he] at hlevel
    rw [Workspace.planFrom_of_error he]
    exact .refused hlevel
  | case2 xs plan d hd hnil =>
    rw [hd] at hlevel
    rw [Workspace.planFrom_of_ok hd, hnil, Workspace.planFrom_nil]
    exact .done hlevel hnil
  | case3 xs plan d hd hnext ih =>
    rw [hd] at hlevel
    rw [Workspace.planFrom_of_ok hd]
    exact .next hlevel hnext (ih (installer.level_linker env d.next ⟨d.plan, []⟩ s))

/-- With the projects of a workspace planning ends, and this is the only installation. -/
theorem installs_linker_iff {run : Runner ω} {target : Interpreter} {options : InstallOptions}
    {ds : List Dependency} {s s' : ω} {done : Installation} :
    installer.linker.Installs run installer.virtualOnly target options ds s done s' ↔
      installer.install run target options ds s = (done, s') := by
  have hplans := installer.plansFrom_linker target.environment ds ∅ s
  rw [install]
  constructor
  · intro h
    cases h with
    | refused hrefused => rw [if_pos hrefused]
    | planned hadmitted hplans' =>
      obtain ⟨rfl, rfl⟩ := hplans.unique hplans'
      rw [hadmitted, if_neg Bool.false_ne_true]
      rfl
  · split
    next hrefused =>
      intro h
      obtain ⟨rfl, rfl⟩ := Prod.mk.inj h
      exact .refused hrefused
    next hadmitted =>
      intro h
      obtain rfl : _ = done := congrArg Prod.fst h
      obtain rfl : _ = s' := congrArg Prod.snd h
      exact .planned (Bool.eq_false_iff.2 hadmitted) hplans

end Installer

/-! ### Installations -/

namespace Linker

variable {linker : Linker ω} {run : Runner ω} {virtualOnly : Bool} {target : Interpreter}
  {options : InstallOptions} {ds : List Dependency} {s s' : ω} {done : Installation}

/-- The events of an installation are what was asked of the linker and of the interpreters. -/
theorem Installs.traced (h : linker.Installs run virtualOnly target options ds s done s') :
    linker.traced.Installs run.traced virtualOnly target options ds (s, []) done
      (s', done.events) := by
  cases h with
  | refused hrefused => exact .refused hrefused
  | @planned planned s₁ hadmitted hplans =>
    have htraced : linker.traced.Installs run.traced virtualOnly target options ds (s, []) _ _ :=
      .planned hadmitted (hplans.traced [])
    -- nothing is recorded up to here, and the rest is what the plan leads to
    cases planned with
    | error e => exact htraced
    | ok plan =>
      have hevents := @carryOut_traced _ linker run target.executable options plan s₁ []
      rw [proceed, hevents] at htraced
      exact htraced

/-- An installation with any linker does nothing if it may not be made or if there is no plan, and
is careful with its plan.  It comes to an end whenever planning does, and the installations with a
workspace are among these. -/
theorem install_careful (linker : Linker ω) (run : Runner ω) (virtualOnly : Bool)
    (target : Interpreter) (options : InstallOptions) (ds : List Dependency) (s : ω) :
    (∀ done s', linker.Installs run virtualOnly target options ds s done s' →
      linker.traced.Installs run.traced virtualOnly target options ds (s, []) done
        (s', done.events) ∧
      ((virtualOnly && !target.isVirtual) = true →
        done = { result := .error (.notVirtual target.report.home) }) ∧
      ((virtualOnly && !target.isVirtual) = false →
        ∀ planned s₁, linker.Plans target.environment ds s planned s₁ →
          match planned with
          | .error e => done = { result := .error e }
          | .ok plan => Careful target.executable options plan done)) ∧
    ((virtualOnly && !target.isVirtual) = true ∨
        (∃ planned s₁, linker.Plans target.environment ds s planned s₁) →
      ∃ done s', linker.Installs run virtualOnly target options ds s done s') ∧
    ∀ (installer : Installer) (done : Installation) (s' : ω),
      installer.linker.Installs run installer.virtualOnly target options ds s done s' ↔
        installer.install run target options ds s = (done, s') := by
  refine ⟨fun done s' h => ⟨h.traced, fun hrefused => ?_, fun hadmitted planned s₁ hplans => ?_⟩,
    fun hends => ?_, fun installer _ _ => installer.installs_linker_iff⟩
  · cases h with
    | refused => rfl
    | planned hadmitted => cases hrefused.symm.trans hadmitted
  · cases h with
    | refused hrefused => cases hrefused.symm.trans hadmitted
    | planned _ hplans' =>
      obtain ⟨rfl, rfl⟩ := hplans.unique hplans'
      cases planned with
      | error e => rfl
      | ok plan => exact (linker.course_carryOut run target.executable options plan s₁).careful
  · cases hadmitted : virtualOnly && !target.isVirtual with
    | true => exact ⟨_, _, .refused hadmitted⟩
    | false =>
      rw [hadmitted] at hends
      obtain ⟨planned, s₁, hplans⟩ := hends.resolve_left Bool.false_ne_true
      exact ⟨_, _, .planned hadmitted hplans⟩

/-- A linker that counts the projects that it was to link, and refuses all but the first one. -/
def onceLinker : Linker Nat where
  isDirectory _ _ := true
  dependencies project n :=
    (.ok (if project.text = "/p" then [(Requirement.ofName "sphinx").toDependency] else []), n)
  link project n := (if n = 0 then .ok () else .error (.link ⟨project, "linked before"⟩), n + 1)

/-- Two projects, the first of which has a dependency, and a name. -/
def onceDeclared : List Dependency :=
  [(linking "p" "/p" []).toDependency, (Requirement.ofName "tool").toDependency,
    (linking "q" "/q" []).toDependency]

/-- An interpreter outside of virtual environments. -/
def systemPython : Interpreter where
  executable := ⟨"/usr/bin/python"⟩
  report := {
    protocol := 1
    executable := none
    version := "3.10.2"
    platform := "linux"
    home := ⟨"/usr"⟩
    baseHome := none
    realHome := none
    environment := plainEnvironment }

/-- All calls end with one status, or with a signal. -/
def ending (code : Option Nat) : Runner Nat := fun _ _ n => (.finished code "" "", n)

theorem plans_onceDeclared : onceLinker.Plans plainEnvironment onceDeclared 0
    (.ok ⟨["tool", "sphinx"], [⟨"/p"⟩, ⟨"/q"⟩]⟩) 0 := by
  have hfirst : onceLinker.level plainEnvironment onceDeclared ⟨∅, []⟩ 0 =
      (.ok ⟨⟨["tool"], [⟨"/p"⟩, ⟨"/q"⟩]⟩, [(Requirement.ofName "sphinx").toDependency]⟩, 0) := rfl
  have hsecond : onceLinker.level plainEnvironment [(Requirement.ofName "sphinx").toDependency]
      ⟨⟨["tool"], [⟨"/p"⟩, ⟨"/q"⟩]⟩, []⟩ 0 =
        (.ok ⟨⟨["tool", "sphinx"], [⟨"/p"⟩, ⟨"/q"⟩]⟩, []⟩, 0) := rfl
  exact .next hfirst (List.cons_ne_nil _ _) (.done hsecond rfl)

/-- The system is refused as an environment.  In an environment where the second link is refused,
pip and the first link have come before.  Nothing is linked if pip fails or is interrupted. -/
theorem install_careful_onceDeclared :
    (∃ s', onceLinker.Installs (ending (some 0)) true systemPython {} onceDeclared 0
      { result := .error (.notVirtual ⟨"/usr"⟩) } s') ∧
    (∃ done s', onceLinker.Installs (ending (some 0)) false systemPython {} onceDeclared 0 done s' ∧
      onceLinker.traced.Installs (ending (some 0)).traced false systemPython {} onceDeclared (0, [])
        done (s', done.events) ∧
      Careful systemPython.executable {} ⟨["tool", "sphinx"], [⟨"/p"⟩, ⟨"/q"⟩]⟩ done ∧
      done.runs = [(⟨"/usr/bin/python"⟩, .pip ["install", "tool", "sphinx"])] ∧
      done.attempted = [⟨"/p"⟩, ⟨"/q"⟩] ∧ done.linked = [⟨"/p"⟩] ∧
      done.result = .error (.link ⟨⟨"/q"⟩, "linked before"⟩)) ∧
    (∃ done s', onceLinker.Installs (ending (some 2)) false systemPython {} onceDeclared 0 done s' ∧
      done.result = .ok 2 ∧ done.attempted = []) ∧
    ∃ done s', onceLinker.Installs (ending none) false systemPython {} onceDeclared 0 done s' ∧
      done.result = .ok (-1) ∧ done.attempted = [] := by
  have hinstalls (code : Option Nat) :
      onceLinker.Installs (ending code) false systemPython {} onceDeclared 0 _ _ :=
    .planned rfl plans_onceDeclared
  have hinstalled (code : Option Nat) :=
    (install_careful onceLinker (ending code) false systemPython {} onceDeclared 0).1 _ _
      (hinstalls code)
  have hcareful (code : Option Nat) := (hinstalled code).2.2 rfl _ _ plans_onceDeclared
  refine ⟨?_, ⟨_, _, hinstalls _, (hinstalled _).1, hcareful _, rfl, rfl, rfl, rfl⟩,
    ⟨_, _, hinstalls _, ?_⟩, ⟨_, _, hinstalls _, ?_⟩⟩
  · obtain ⟨hdone, hends, -⟩ :=
      install_careful onceLinker (ending (some 0)) true systemPython {} onceDeclared 0
    obtain ⟨done, s', hrefused⟩ := hends (.inl rfl)
    rw [(hdone done s' hrefused).2.1 rfl] at hrefused
    exact ⟨s', hrefused⟩
  · exact (hcareful (some 2)).failed _ _ 2 _ _ (List.mem_singleton_self _) (by decide)
  · exact (hcareful none).interrupted _ _ _ _ (List.mem_singleton_self _)

end Linker

end Requisite
