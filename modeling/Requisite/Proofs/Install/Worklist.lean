import Requisite.Proofs.Install.Levels

/-!
# Plans from a queue of dependencies

A plan can be made with a queue: its first dependency is taken out, the option of a choice is put
back at the front, and what a linked project depends on goes to the back.  The queue need not get
shorter, and projects may link each other; still it is worked off, since no project is asked for its
dependencies twice.

* `Worklist.step`, `Worklist.Ends` — one step, and where the steps end;
* `Worklist.ends_level` — the queue goes through a level and then holds the next one;
* `Worklist.step_cases` — what a step does to the projects that were asked;
* **`Workspace.plan_levels`** — the queue, the plan and its reading level by level agree.
-/

namespace Requisite

/-! ### Paths and requirements -/

/-- No two of some paths are the same. -/
def Path.Distinct (paths : List Path) : Prop :=
  paths.Pairwise fun p q => p.same q = false

theorem Path.Distinct.append_singleton {paths : List Path} {p : Path} (h : Path.Distinct paths)
    (hp : paths.any (·.same p) = false) : Path.Distinct (paths ++ [p]) := by
  refine List.pairwise_append.2 ⟨h, List.pairwise_singleton .., fun q hq p' hp' => ?_⟩
  rw [List.mem_singleton.1 hp', ← Bool.not_eq_true]
  exact List.any_eq_false.1 hp q hq

namespace Workspace

/-- The requirement that a dependency stands for applies, and is the dependency itself or one of
its options. -/
theorem chosen_eq_some {env : Environment} {x : Dependency} {r : Requirement}
    (h : chosen env x = .ok (some r)) : x.applies env (some ∅) = .ok true ∧
      r.applies env (some ∅) = .ok true ∧
        (x = r.toDependency ∨ ∃ options, x.subject = .oneOf options ∧
          selectOption options env (some ∅) = .ok (some r)) := by
  unfold chosen at h
  split at h
  next => nomatch h
  next => nomatch h
  next happlies =>
    refine ⟨happlies, ?_⟩
    split at h
    next origin horigin =>
      obtain rfl := Option.some.inj (Except.ok.inj h)
      refine ⟨happlies, Or.inl ?_⟩
      show x = x.withSubject (.one origin)
      rw [← horigin]
      rfl
    next options hoptions => exact ⟨(selectOption_eq_some h).2, Or.inr ⟨options, hoptions, h⟩⟩

end Workspace

/-! ### The queue -/

/-- A plan in the making, with the dependencies that are still to be looked at. -/
structure Worklist where
  queue : List Dependency
  plan : Plan := ∅
  /-- The projects that were asked for their dependencies. -/
  asked : List Path := []

namespace Worklist

/-- What is done with the first dependency of the queue: the work goes on, or it ends with a plan or
a fault and the projects that were asked. -/
def step (w : Workspace) (env : Environment) (s : Worklist) :
    Worklist ⊕ Except PlanError Plan × List Path :=
  match s.queue with
  | [] => .inr (.ok s.plan, s.asked)
  | x :: queue =>
    match x.applies env (some ∅) with
    | .error e => .inr (.error (.dependency e), s.asked)
    | .ok false => .inl { s with queue }
    | .ok true =>
      match x.subject with
      | .oneOf options =>
        match selectOption options env (some ∅) with
        | .error e => .inr (.error (.dependency e), s.asked)
        | .ok none => .inl { s with queue }
        | .ok (some r) => .inl { s with queue := r.toDependency :: queue }
      | .one (.directory project _ true) =>
        if !w.isDirectory project then .inr (.error (.link ⟨project, "not a directory"⟩), s.asked)
        else if s.asked.any (·.same project) then .inl { s with queue }
        else
          match w.contribution env project x.extras with
          | .error e => .inr (.error (.dependency e), s.asked ++ [project])
          | .ok more => .inl {
              queue := queue ++ more
              plan := { s.plan with link := s.plan.link ++ [project] }
              asked := s.asked ++ [project] }
      | _ => .inl { s with
          queue
          plan := { s.plan with arguments := s.plan.arguments ++ x.arguments } }

/-- A worklist is worked off, and ends with a plan or a fault and the projects that were asked. -/
inductive Ends (w : Workspace) (env : Environment) :
    Worklist → Except PlanError Plan × List Path → Prop
  | stop {s : Worklist} {r : Except PlanError Plan × List Path} (h : s.step w env = .inr r) :
      Ends w env s r
  | next {s s' : Worklist} {r : Except PlanError Plan × List Path} (h : s.step w env = .inl s')
      (hrest : Ends w env s' r) : Ends w env s r

variable {w : Workspace} {env : Environment} {s s' : Worklist}
  {r r' : Except PlanError Plan × List Path}

/-- A worklist ends in one way only. -/
theorem Ends.unique (h : Ends w env s r) (h' : Ends w env s r') : r = r' := by
  induction h with
  | stop hs =>
    cases h' with
    | stop hs' => exact Sum.inr.inj (hs.symm.trans hs')
    | next hs' => nomatch hs.symm.trans hs'
  | next hs hrest ih =>
    cases h' with
    | stop hs' => nomatch hs.symm.trans hs'
    | next hs' hrest' =>
      obtain rfl := Sum.inl.inj (hs.symm.trans hs')
      exact ih hrest'

open Workspace

variable {x : Dependency} {queue : List Dependency} {plan : Plan} {asked : List Path}

theorem step_of_chosen_error {e : DependencyError} (h : chosen env x = .error e) :
    step w env ⟨x :: queue, plan, asked⟩ = .inr (.error (.dependency e), asked) := by
  unfold chosen at h
  cases happlies : x.applies env (some ∅) with
  | error e' =>
    rw [happlies] at h
    obtain rfl : e' = e := Except.error.inj h
    simp only [step, happlies]
  | ok b =>
    rw [happlies] at h
    cases b with
    | false => nomatch h
    | true =>
      cases hsubject : x.subject with
      | one origin =>
        rw [hsubject] at h
        nomatch h
      | oneOf options =>
        rw [hsubject] at h
        have hselect : selectOption options env (some ∅) = .error e := h
        simp only [step, happlies, hsubject, hselect]

theorem step_of_chosen_none (h : chosen env x = .ok none) :
    step w env ⟨x :: queue, plan, asked⟩ = .inl ⟨queue, plan, asked⟩ := by
  unfold chosen at h
  cases happlies : x.applies env (some ∅) with
  | error e =>
    rw [happlies] at h
    nomatch h
  | ok b =>
    rw [happlies] at h
    cases b with
    | false => simp only [step, happlies]
    | true =>
      cases hsubject : x.subject with
      | one origin =>
        rw [hsubject] at h
        nomatch h
      | oneOf options =>
        rw [hsubject] at h
        have hselect : selectOption options env (some ∅) = .ok none := h
        simp only [step, happlies, hsubject, hselect]

/-- The option of a choice takes the place of the choice. -/
theorem step_option {options : List Requirement} {r : Requirement}
    (happlies : x.applies env (some ∅) = .ok true) (hoptions : x.subject = .oneOf options)
    (hselect : selectOption options env (some ∅) = .ok (some r)) :
    step w env ⟨x :: queue, plan, asked⟩ = .inl ⟨r.toDependency :: queue, plan, asked⟩ := by
  simp only [step, happlies, hoptions, hselect]

/-- A dependency is looked at as the requirement that it stands for. -/
theorem Ends.of_chosen {r : Requirement} {res : Except PlanError Plan × List Path}
    (h : chosen env x = .ok (some r))
    (hrest : Ends w env ⟨r.toDependency :: queue, plan, asked⟩ res) :
    Ends w env ⟨x :: queue, plan, asked⟩ res := by
  obtain ⟨happlies, -, rfl | ⟨options, hoptions, hselect⟩⟩ := chosen_eq_some h
  · exact hrest
  · exact .next (step_option happlies hoptions hselect) hrest

theorem step_requirement (w : Workspace) (queue : List Dependency) (plan : Plan)
    (asked : List Path) {r : Requirement} (h : r.applies env (some ∅) = .ok true) :
    step w env ⟨r.toDependency :: queue, plan, asked⟩ =
      match r.linked? with
      | none => .inl ⟨queue, { plan with arguments := plan.arguments ++ r.arguments }, asked⟩
      | some (project, extras) =>
        if !w.isDirectory project then .inr (.error (.link ⟨project, "not a directory"⟩), asked)
        else if asked.any (·.same project) then .inl ⟨queue, plan, asked⟩
        else
          match w.contribution env project extras with
          | .error e => .inr (.error (.dependency e), asked ++ [project])
          | .ok more => .inl
            ⟨queue ++ more, { plan with link := plan.link ++ [project] }, asked ++ [project]⟩ := by
  have happlies : r.toDependency.applies env (some ∅) = .ok true := h
  have hsubject : r.toDependency.subject = .one r.subject := rfl
  unfold Requirement.linked?
  simp only [step, happlies, hsubject]
  cases r.subject with
  | registry | repository | archive => rfl
  | directory project develop link => cases link <;> rfl

/-! ### Levels of the queue -/

/-- The worklist of a draft, in front of it the rest of the level. -/
def ofDraft (queue : List Dependency) (d : Workspace.Draft) : Worklist :=
  ⟨queue ++ d.next, d.plan, d.plan.link⟩

/-- A requirement is looked at as it is added to a draft. -/
theorem step_addRequirement (w : Workspace) {r : Requirement}
    (h : r.applies env (some ∅) = .ok true) (queue : List Dependency) (d : Draft) :
    (∃ d', w.addRequirement env d r = .ok d' ∧
      step w env (ofDraft (r.toDependency :: queue) d) = .inl (ofDraft queue d')) ∨
    ∃ e asked, w.addRequirement env d r = .error e ∧
      step w env (ofDraft (r.toDependency :: queue) d) = .inr (.error e, asked) := by
  have hstep := step_requirement w (queue ++ d.next) d.plan d.plan.link h
  have hqueue : ofDraft (r.toDependency :: queue) d =
      ⟨r.toDependency :: (queue ++ d.next), d.plan, d.plan.link⟩ := rfl
  rw [hqueue, hstep]
  cases hr : r.linked? with
  | none => exact Or.inl ⟨_, addRequirement_of_linked_eq_none hr, rfl⟩
  | some a =>
    obtain ⟨project, extras⟩ := a
    have hseen : d.plan.link.any (·.same project) = d.plan.links project := rfl
    dsimp only
    rw [addRequirement_of_linked hr, addProject, hseen]
    cases w.isDirectory project with
    | false => exact Or.inr ⟨_, _, rfl, rfl⟩
    | true =>
      cases d.plan.links project with
      | true => exact Or.inl ⟨_, rfl, rfl⟩
      | false =>
        cases w.contribution env project extras with
        | error e => exact Or.inr ⟨_, _, rfl, rfl⟩
        | ok more =>
          refine Or.inl ⟨_, rfl, ?_⟩
          simp [ofDraft]

/-- A level is worked off, and the queue holds the next one then; or a dependency is at fault. -/
theorem ends_level (w : Workspace) (env : Environment) (xs : List Dependency) (d : Draft) :
    (∃ d', w.level env xs d = .ok d' ∧
      ∀ res, Ends w env (ofDraft [] d') res → Ends w env (ofDraft xs d) res) ∨
    ∃ e asked, w.level env xs d = .error e ∧ Ends w env (ofDraft xs d) (.error e, asked) := by
  induction xs generalizing d with
  | nil => exact Or.inl ⟨d, rfl, fun res h => h⟩
  | cons x xs ih =>
    rw [level]
    cases hx : chosen env x with
    | error e => exact Or.inr ⟨_, _, rfl, .stop (step_of_chosen_error hx)⟩
    | ok o =>
      cases o with
      | none =>
        have hstep : step w env (ofDraft (x :: xs) d) = .inl (ofDraft xs d) :=
          step_of_chosen_none hx
        rcases ih d with ⟨d', hlevel, hends⟩ | ⟨e, asked, hlevel, hends⟩
        · exact Or.inl ⟨d', hlevel, fun res h => .next hstep (hends res h)⟩
        · exact Or.inr ⟨e, asked, hlevel, .next hstep hends⟩
      | some r =>
        have happlies := (chosen_eq_some hx).2.1
        dsimp only
        rcases step_addRequirement w happlies xs d with
          ⟨d₁, hadd, hstep⟩ | ⟨e, asked, hadd, hstep⟩
        · rw [hadd]
          rcases ih d₁ with ⟨d', hlevel, hends⟩ | ⟨e, asked, hlevel, hends⟩
          · exact Or.inl ⟨d', hlevel, fun res h => .of_chosen hx (.next hstep (hends res h))⟩
          · exact Or.inr ⟨e, asked, hlevel, .of_chosen hx (.next hstep hends)⟩
        · rw [hadd]
          exact Or.inr ⟨e, asked, rfl, .of_chosen hx (.stop hstep)⟩

/-- A queue comes down to that of the next level. -/
theorem Ends.of_level {xs : List Dependency} {plan : Plan} {d : Draft}
    {res : Except PlanError Plan × List Path} (hlevel : w.level env xs ⟨plan, []⟩ = .ok d)
    (hrest : Ends w env ⟨d.next, d.plan, d.plan.link⟩ res) :
    Ends w env ⟨xs, plan, plan.link⟩ res := by
  have hstart : ofDraft xs ⟨plan, []⟩ = ⟨xs, plan, plan.link⟩ := by
    rw [ofDraft, List.append_nil]
  rcases ends_level w env xs ⟨plan, []⟩ with ⟨d', hd', hends⟩ | ⟨e, asked, he, -⟩
  · obtain rfl := Except.ok.inj (hlevel.symm.trans hd')
    exact hstart ▸ hends res hrest
  · nomatch hlevel.symm.trans he

/-- A queue is worked off, and ends with the plan that has its levels one after the other. -/
theorem exists_ends_planFrom (w : Workspace) (env : Environment) (xs : List Dependency)
    (plan : Plan) :
    ∃ asked, Ends w env ⟨xs, plan, plan.link⟩ (w.planFrom env xs plan, asked) := by
  induction xs, plan using planFrom.induct w env with
  | case1 xs plan e he =>
    rcases ends_level w env xs ⟨plan, []⟩ with
      ⟨d, hd, -⟩ | ⟨e', asked, he', hends⟩
    · cases he.symm.trans hd
    · rw [ofDraft, List.append_nil] at hends
      rw [planFrom_of_error he']
      exact ⟨asked, hends⟩
  | case2 xs plan d hd hnil =>
    rw [planFrom_of_ok hd, hnil, planFrom_nil]
    refine ⟨d.plan.link, .of_level hd (.stop ?_)⟩
    rw [hnil]
    rfl
  | case3 xs plan d hd hne ih =>
    obtain ⟨asked, hrest⟩ := ih
    rw [planFrom_of_ok hd]
    exact ⟨asked, .of_level hd hrest⟩

/-! ### The projects that are asked -/

/-- The projects that were asked: as before, or with one that was not among them. -/
inductive Asks : List Path → List Path → Prop
  | nobody {asked : List Path} : Asks asked asked
  | project {asked : List Path} {p : Path} (hnew : asked.any (·.same p) = false) :
      Asks asked (asked ++ [p])

theorem Asks.distinct {asked asked' : List Path} (h : Asks asked asked')
    (hasked : Path.Distinct asked) : Path.Distinct asked' := by
  cases h with
  | nobody => exact hasked
  | project hnew => exact hasked.append_singleton hnew

/-- A step asks at most one project, which is linked if the work goes on, and ends with the plan of
the worklist or with a fault. -/
theorem step_cases (w : Workspace) (env : Environment) (s : Worklist) :
    (∃ s', s.step w env = .inl s' ∧ Asks s.asked s'.asked ∧
      (s.plan.link = s.asked → s'.plan.link = s'.asked)) ∨
    s.step w env = .inr (.ok s.plan, s.asked) ∨
    ∃ e asked, s.step w env = .inr (.error e, asked) ∧ Asks s.asked asked := by
  obtain ⟨queue, plan, asked⟩ := s
  cases queue with
  | nil => exact Or.inr (Or.inl rfl)
  | cons x queue =>
    cases hx : chosen env x with
    | error e => exact Or.inr (Or.inr ⟨_, _, step_of_chosen_error hx, .nobody⟩)
    | ok o =>
      cases o with
      | none => exact Or.inl ⟨_, step_of_chosen_none hx, .nobody, id⟩
      | some r =>
        obtain ⟨happlies, hr, rfl | ⟨options, hoptions, hselect⟩⟩ := chosen_eq_some hx
        · rw [step_requirement w queue plan asked hr]
          cases r.linked? with
          | none => exact Or.inl ⟨_, rfl, .nobody, id⟩
          | some a =>
            dsimp only
            cases w.isDirectory a.1 with
            | false => exact Or.inr (Or.inr ⟨_, _, rfl, .nobody⟩)
            | true =>
              cases hnew : asked.any (·.same a.1) with
              | true => exact Or.inl ⟨_, rfl, .nobody, id⟩
              | false =>
                cases w.contribution env a.1 a.2 with
                | error e => exact Or.inr (Or.inr ⟨_, _, rfl, .project hnew⟩)
                | ok more => exact Or.inl ⟨_, rfl, .project hnew, congrArg (· ++ [a.1])⟩
        · exact Or.inl ⟨_, step_option happlies hoptions hselect, .nobody, id⟩

theorem Ends.distinct (h : Ends w env s r) (hs : Path.Distinct s.asked) : Path.Distinct r.2 := by
  induction h with
  | @stop s r hstep =>
    rcases step_cases w env s with ⟨s', hs', -⟩ | hok | ⟨e, asked, herror, hasks⟩
    · nomatch hstep.symm.trans hs'
    · rw [Sum.inr.inj (hstep.symm.trans hok)]
      exact hs
    · rw [Sum.inr.inj (hstep.symm.trans herror)]
      exact hasks.distinct hs
  | @next s s' r hstep hrest ih =>
    rcases step_cases w env s with ⟨s'', hs', hasks, -⟩ | hok | ⟨e, asked, herror, -⟩
    · obtain rfl := Sum.inl.inj (hstep.symm.trans hs')
      exact ih (hasks.distinct hs)
    · nomatch hstep.symm.trans hok
    · nomatch hstep.symm.trans herror

/-- The projects of a plan are those that were asked. -/
theorem Ends.link_eq (h : Ends w env s r) (hs : s.plan.link = s.asked) {plan : Plan}
    (hplan : r.1 = .ok plan) : plan.link = r.2 := by
  induction h with
  | @stop s r hstep =>
    rcases step_cases w env s with ⟨s', hs', -⟩ | hok | ⟨e, asked, herror, -⟩
    · nomatch hstep.symm.trans hs'
    · rw [Sum.inr.inj (hstep.symm.trans hok)] at hplan ⊢
      rw [← Except.ok.inj hplan]
      exact hs
    · rw [Sum.inr.inj (hstep.symm.trans herror)] at hplan
      nomatch hplan
  | @next s s' r hstep hrest ih =>
    rcases step_cases w env s with ⟨s'', hs', -, hlink⟩ | hok | ⟨e, asked, herror, -⟩
    · obtain rfl := Sum.inl.inj (hstep.symm.trans hs')
      exact ih (hlink hs) hplan
    · nomatch hstep.symm.trans hok
    · nomatch hstep.symm.trans herror

end Worklist

/-- A queue of dependencies is worked off in one way only, whatever projects link each other.  It
ends with the plan that is read level by level, or with the first fault in that reading; no project
is asked for its dependencies twice, and those of a plan are linked in the order in which they were
asked. -/
theorem Workspace.plan_levels (w : Workspace) (env : Environment) (ds : List Dependency) :
    (∃ asked, Worklist.Ends w env ⟨ds, ∅, []⟩ (w.plan env ds, asked)) ∧
    (∀ r asked, Worklist.Ends w env ⟨ds, ∅, []⟩ (r, asked) → r = w.plan env ds ∧
      Path.Distinct asked ∧ ∀ plan, r = .ok plan → plan.link = asked) ∧
    ∀ r, LevelByLevel w env [] ds r ↔ r = w.plan env ds := by
  obtain ⟨asked, hends⟩ := Worklist.exists_ends_planFrom w env ds ∅
  refine ⟨⟨asked, hends⟩, fun r asked' h => ⟨?_, ?_, fun plan hplan => ?_⟩,
    fun r => levelByLevel_iff⟩
  · exact (Prod.mk.inj (h.unique hends)).1
  · exact h.distinct .nil
  · exact h.link_eq rfl hplan

/-! ### Projects that link each other -/

/-- A requirement that links a project. -/
def linking (name path : String) (extras : List String) : Requirement :=
  { Declared.plain name (.directory ⟨path⟩ false true) with extras }

/-- Two projects that link each other, one of them under another spelling of its path. -/
def circularProjects : Workspace :=
  .ofTable (fun _ => true) [
    (⟨"/a"⟩, [(linking "b" "/b" []).toDependency,
      { (Requirement.ofName "docs").toDependency with markers := some "extra == 'docs'" }]),
    (⟨"/b"⟩, [(linking "a" "/a/" []).toDependency,
      { (Requirement.ofName "test").toDependency with markers := some "extra == 'test'" },
      (Requirement.ofName "lib").toDependency])]

/-- A choice, the first project with an extra, and what the choice does not come after. -/
def circularDeclared : List Dependency :=
  [(linking "a" "/a" ["docs"]).toDependency,
    Declared.plain "any" (.oneOf [
      { Requirement.ofName "no" with markers := some "os_name == 'nt'" },
      Requirement.ofName "yes"]),
    (Requirement.ofName "tool").toDependency]

/-- An environment in which all variables have one text. -/
def plainEnvironment : Environment := ⟨fun _ => "3.10"⟩

/-- Each of the projects is asked once: the second level comes back to the first project, and the
option of the choice stays between its neighbours. -/
theorem plan_circularProjects : ∃ plan asked,
    Worklist.Ends circularProjects plainEnvironment ⟨circularDeclared, ∅, []⟩ (.ok plan, asked) ∧
      Workspace.LevelByLevel circularProjects plainEnvironment [] circularDeclared (.ok plan) ∧
      Path.Distinct asked ∧ plan.arguments = ["yes", "tool", "docs", "lib"] ∧
      asked = [⟨"/a"⟩, ⟨"/b"⟩] := by
  obtain ⟨⟨asked, hends⟩, hunique, hlevels⟩ :=
    circularProjects.plan_levels plainEnvironment circularDeclared
  have hparts : (circularProjects.plan plainEnvironment circularDeclared).toOption.map
      (fun plan => (plan.arguments, plan.link)) =
        some (["yes", "tool", "docs", "lib"], [⟨"/a"⟩, ⟨"/b"⟩]) := by decide +kernel
  cases hplan : circularProjects.plan plainEnvironment circularDeclared with
  | error e =>
    rw [hplan] at hparts
    nomatch hparts
  | ok plan =>
    rw [hplan] at hends hlevels hparts
    obtain ⟨hargs, hlink⟩ := Prod.mk.inj (Option.some.inj hparts)
    obtain ⟨-, hdistinct, hasked⟩ := hunique _ _ hends
    have hasked : plan.link = asked := hasked plan rfl
    exact ⟨plan, asked, hends, (hlevels _).2 rfl, hdistinct, hargs, hasked.symm.trans hlink⟩

end Requisite
