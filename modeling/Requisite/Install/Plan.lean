import Requisite.Index.Basic
import Requisite.Requirement.Basic
import Requisite.Requirement.Selection

/-!
# Plans

A plan has what pip is asked to install and the projects that are linked into the environment.  A
project that is linked is not installed; its own dependencies are, and they may be on projects
that are linked in turn.

* `Requirement.arguments` — what pip is asked to install for a requirement;
* `Workspace.level` — the plan with one level of dependencies: those that were declared, or those
  of the projects that the level before has linked;
* `Workspace.plan` — the plan of all levels.  A project is linked once, so that there are no more
  levels with dependencies than projects that have any;
* `Plan.commandLine` — the command that runs pip.
-/

namespace Requisite

open Std

/-! ### Arguments for pip

Hashes go with an index or an archive; pip has none for repositories and projects. -/

/-- A path as an argument, which starts with `/` or `.`. -/
def Path.argument (p : Path) : List Char :=
  match p.text.toList with
  | '/' :: _ | '.' :: _ => p.text.toList
  | cs => '.' :: '/' :: cs

/-- The arguments that carry hashes. -/
def hashArguments (hashes : List String) : List String :=
  hashes.map fun h => String.ofList ("--hash=".toList ++ h.toList)

/-- The arguments that install a requirement. -/
def Requirement.arguments (r : Requirement) : List String :=
  match r.subject with
  | .registry range _ => String.ofList (r.head ++ range.chars) :: hashArguments r.hashes
  | .archive url =>
    String.ofList (r.head ++ " @ ".toList ++ url.toList) :: hashArguments r.hashes
  | .repository url reference =>
    let commit :=
      match reference with
      | some c => '@' :: c.value.toList
      | none => []
    [String.ofList (r.head ++ " @ git+".toList ++ url.toList ++ commit)]
  | .directory path develop _ =>
    let project := String.ofList (path.argument ++ extrasChars r.extras)
    if develop then ["-e", project] else [project]

/-- The arguments that install a dependency.  A choice is resolved before, and has none. -/
def Dependency.arguments (d : Dependency) : List String :=
  match d.subject with
  | .one origin => Requirement.arguments (d.withSubject origin)
  | .oneOf _ => []

/-! ### Plans -/

/-- What an installation does. -/
structure Plan where
  /-- What pip is asked to install. -/
  arguments : List String := []
  /-- The projects to link, in the order in which they were met. -/
  link : List Path := []
  deriving Repr

/-- How pip is run. -/
structure InstallOptions where
  indexes : Indexes := ∅
  quiet : Bool := false
  upgrade : Bool := false

namespace Plan

/-- The plan of nothing. -/
def empty : Plan := {}

instance : EmptyCollection Plan := ⟨empty⟩

/-- pip has something to install. -/
def hasRequirements (plan : Plan) : Bool :=
  !plan.arguments.isEmpty

/-- The project is linked, maybe under another spelling of its path. -/
def links (plan : Plan) (project : Path) : Bool :=
  plan.link.any (·.same project)

/-- The flags that do not concern indexes. -/
def flags (options : InstallOptions) : List String :=
  (if options.upgrade then ["--upgrade"] else []) ++ (if options.quiet then ["--quiet"] else [])

/-- What pip is called with. -/
def pipArguments (plan : Plan) (options : InstallOptions) : Except IndexError (List String) :=
  options.indexes.arguments.map fun indexes =>
    "install" :: plan.arguments ++ indexes ++ flags options

/-- The command that runs pip. -/
def commandLine (plan : Plan) (executable : Path) (options : InstallOptions) :
    Except IndexError (List String) :=
  (plan.pipArguments options).map fun arguments =>
    [executable.text, "-m", "pip"] ++ arguments

end Plan

/-- A project that cannot be linked. -/
structure LinkError where
  project : Path
  reason : String
  deriving DecidableEq, Repr

/-- The wording of a refusal. -/
def LinkError.message (e : LinkError) : String :=
  "cannot link project " ++ e.project.text ++ ": " ++ e.reason

/-- Why there is no plan. -/
inductive PlanError
  | dependency (e : DependencyError)
  | link (e : LinkError)
  deriving DecidableEq, Repr

/-- The projects that can be linked.  Finitely many of them have dependencies. -/
structure Workspace where
  /-- There is a directory at a path. -/
  isDirectory : Path → Bool
  /-- The dependencies that the project at a path declares. -/
  dependencies : Path → List Dependency
  /-- The projects with dependencies, and maybe others. -/
  known : List Path
  covers : ∀ p, isDirectory p = true → dependencies p ≠ [] → known.any p.same = true

namespace Workspace

/-- The projects of a table; where it has a path several times, the first counts. -/
def ofTable (isDirectory : Path → Bool) (table : List (Path × List Dependency)) : Workspace where
  isDirectory := isDirectory
  dependencies p := ((table.find? fun e => p.same e.1).map Prod.snd).getD []
  known := table.map Prod.fst
  covers p _ h := by
    cases he : table.find? fun e => p.same e.1 with
    | none => simp [he] at h
    | some e =>
      have hs := List.find?_some he
      exact List.any_eq_true.2 ⟨e.1, List.mem_map_of_mem (List.mem_of_find?_eq_some he), hs⟩

/-! ### One level -/

/-- A plan in the making. -/
structure Draft where
  plan : Plan := ∅
  /-- The dependencies of the next level. -/
  next : List Dependency := []

/-- The requirement that a dependency contributes, none if it does not apply.  There are no extras
at the top. -/
def chosen (env : Environment) (d : Dependency) : Except DependencyError (Option Requirement) :=
  match d.applies env (some ∅) with
  | .error e => .error e
  | .ok false => .ok none
  | .ok true =>
    match d.subject with
    | .one origin => .ok (some (d.withSubject origin))
    | .oneOf options => selectOption options env (some ∅)

/-- The dependencies of a project that apply under some extras.  Their markers have done their
work, and are dropped. -/
def contribution (w : Workspace) (env : Environment) (project : Path) (extras : List String) :
    Except DependencyError (List Dependency) :=
  (Declared.applicable env (some (ExtTreeSet.ofList extras)) (w.dependencies project)).map
    (List.map fun d => { d with markers := none })

/-- The draft with a project, whose dependencies come with the next level. -/
def addProject (w : Workspace) (env : Environment) (d : Draft) (project : Path)
    (extras : List String) : Except PlanError Draft :=
  if !w.isDirectory project then .error (.link ⟨project, "not a directory"⟩)
  else if d.plan.links project then .ok d
  else
    match w.contribution env project extras with
    | .error e => .error (.dependency e)
    | .ok more =>
      .ok ⟨{ d.plan with link := d.plan.link ++ [project] }, d.next ++ more⟩

/-- The draft with a requirement. -/
def addRequirement (w : Workspace) (env : Environment) (d : Draft) (r : Requirement) :
    Except PlanError Draft :=
  match r.subject with
  | .directory project _ true => w.addProject env d project r.extras
  | _ => .ok { d with plan := { d.plan with arguments := d.plan.arguments ++ r.arguments } }

/-- The draft with the dependencies of a level. -/
def level (w : Workspace) (env : Environment) : List Dependency → Draft → Except PlanError Draft
  | [], d => .ok d
  | x :: xs, d =>
    match chosen env x with
    | .error e => .error (.dependency e)
    | .ok none => level w env xs d
    | .ok (some r) =>
      match w.addRequirement env d r with
      | .error e => .error e
      | .ok d => level w env xs d

/-! ### All levels -/

/-- How many projects with dependencies a plan has not linked yet. -/
def remaining (w : Workspace) (plan : Plan) : Nat :=
  w.known.countP fun q => !plan.links q

theorem countP_lt_countP {α : Type} {p q : α → Bool} {xs : List α}
    (h : ∀ x ∈ xs, p x = true → q x = true)
    (hx : ∃ x ∈ xs, q x = true ∧ p x = false) : xs.countP p < xs.countP q := by
  induction xs with
  | nil => simp at hx
  | cons x xs ih =>
    have hle : xs.countP p ≤ xs.countP q :=
      List.countP_mono_left fun y hy => h y (List.mem_cons_of_mem x hy)
    have hh := h x List.mem_cons_self
    obtain ⟨y, hy, hq, hp⟩ := hx
    cases List.mem_cons.1 hy with
    | inl e =>
      subst e
      simp [hq, hp]
      omega
    | inr hy =>
      have := ih (fun z hz => h z (List.mem_cons_of_mem x hz)) ⟨y, hy, hq, hp⟩
      cases hpx : p x with
      | true => simp [hpx, hh hpx, this]
      | false =>
        simp only [List.countP_cons, hpx, Bool.false_eq_true, if_false]
        omega

theorem links_append {plan : Plan} {project q : Path} :
    { plan with link := plan.link ++ [project] : Plan }.links q
      = (plan.links q || project.same q) := by
  simp [Plan.links]

/-- A new project with dependencies leaves fewer. -/
theorem remaining_lt {w : Workspace} {plan : Plan} {project : Path}
    (hd : w.isDirectory project = true) (hn : plan.links project = false)
    (hs : w.dependencies project ≠ []) :
    w.remaining { plan with link := plan.link ++ [project] } < w.remaining plan := by
  obtain ⟨q, hq, hsame⟩ := List.any_eq_true.1 (w.covers project hd hs)
  refine countP_lt_countP (fun x _ hx => ?_) ⟨q, hq, ?_, ?_⟩
  · rw [links_append] at hx
    cases h : plan.links x <;> simp_all
  · have : plan.links q = plan.links project := by
      have hp : project.parts = q.parts := by simpa [Path.same] using hsame
      simp [Plan.links, Path.same, hp]
    simp [this, hn]
  · simp [links_append, hsame]

theorem remaining_le {w : Workspace} {plan : Plan} {project : Path} :
    w.remaining { plan with link := plan.link ++ [project] } ≤ w.remaining plan := by
  refine List.countP_mono_left fun x _ hx => ?_
  rw [links_append] at hx
  cases h : plan.links x <;> simp_all

/-- The next level only grows by a project with dependencies that is new. -/
def Advances (w : Workspace) (d e : Draft) : Prop :=
  w.remaining e.plan ≤ w.remaining d.plan
    ∧ (e.next = d.next ∨ w.remaining e.plan < w.remaining d.plan)

theorem Advances.trans {w : Workspace} {a b c : Draft} (h : Advances w a b)
    (k : Advances w b c) : Advances w a c := by
  obtain ⟨h₁, h₂⟩ := h
  obtain ⟨k₁, k₂⟩ := k
  refine ⟨Nat.le_trans k₁ h₁, ?_⟩
  rcases h₂ with h₂ | h₂
  · rcases k₂ with k₂ | k₂
    · exact .inl (k₂.trans h₂)
    · exact .inr (by omega)
  · exact .inr (by omega)

theorem contribution_nil {w : Workspace} {env : Environment} {project : Path}
    {extras : List String} {more : List Dependency} (h : w.dependencies project = [])
    (hm : w.contribution env project extras = .ok more) : more = [] := by
  simp [contribution, h, Declared.applicable, Except.map] at hm
  exact hm

theorem advances_addProject {w : Workspace} {env : Environment} {d e : Draft} {project : Path}
    {extras : List String} (h : w.addProject env d project extras = .ok e) : Advances w d e := by
  unfold addProject at h
  split at h
  · cases h
  · rename_i hd
    split at h
    · cases h
      exact ⟨Nat.le_refl _, .inl rfl⟩
    · rename_i hn
      split at h
      · cases h
      · rename_i more hm
        cases h
        refine ⟨remaining_le, ?_⟩
        by_cases hs : w.dependencies project = []
        · exact .inl (by simp [contribution_nil hs hm])
        · exact .inr (remaining_lt (by simpa using hd) (by simpa using hn) hs)

theorem advances_addRequirement {w : Workspace} {env : Environment} {d e : Draft}
    {r : Requirement} (h : w.addRequirement env d r = .ok e) : Advances w d e := by
  unfold addRequirement at h
  split at h
  · exact advances_addProject h
  · cases h
    exact ⟨Nat.le_refl _, .inl rfl⟩

theorem advances_level {w : Workspace} {env : Environment} {xs : List Dependency} {d e : Draft}
    (h : w.level env xs d = .ok e) : Advances w d e := by
  induction xs generalizing d with
  | nil =>
    cases h
    exact ⟨Nat.le_refl _, .inl rfl⟩
  | cons x xs ih =>
    simp only [level] at h
    split at h
    · cases h
    · exact ih h
    · split at h
      · cases h
      · rename_i hr
        exact (advances_addRequirement hr).trans (ih h)

/-- The plan with the dependencies of a level and of all levels below it. -/
def planFrom (w : Workspace) (env : Environment) (xs : List Dependency) (plan : Plan) :
    Except PlanError Plan :=
  match _h : w.level env xs ⟨plan, []⟩ with
  | .error e => .error e
  | .ok d => if _hn : d.next = [] then .ok d.plan else planFrom w env d.next d.plan
termination_by w.remaining plan
decreasing_by exact (advances_level _h).2.resolve_left _hn

/-- The plan of the declared dependencies. -/
def plan (w : Workspace) (env : Environment) (ds : List Dependency) : Except PlanError Plan :=
  w.planFrom env ds ∅

end Workspace

end Requisite
