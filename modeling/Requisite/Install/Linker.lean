import Requisite.Install.Basic

/-!
# Installing with any linker

A linker may answer in any way, and may change its answers.  So planning with it may fail, and it
need not end, as there may always be one more project to link.

* `Linker.level` — the plan with one level of dependencies;
* `Linker.Plans` — the plan of all levels, if planning ends;
* `Linker.Installs` — an installation, if planning ends.
-/

namespace Requisite.Linker

open Std

variable {ω : Type}

/-- The dependencies of a project that apply under some extras, without their markers. -/
def released (env : Environment) (extras : List String) (declared : List Dependency) :
    Except DependencyError (List Dependency) :=
  (Declared.applicable env (some (ExtTreeSet.ofList extras)) declared).map
    (List.map fun d => { d with markers := none })

/-- The draft with a project, whose dependencies come with the next level. -/
def addProject (linker : Linker ω) (env : Environment) (d : Workspace.Draft) (project : Path)
    (extras : List String) (s : ω) : Except InstallError Workspace.Draft × ω :=
  if !linker.isDirectory project s then (.error (.plan (.link ⟨project, "not a directory"⟩)), s)
  else if d.plan.links project then (.ok d, s)
  else
    match linker.dependencies project s with
    | (.error e, s) => (.error e, s)
    | (.ok declared, s) =>
      match released env extras declared with
      | .error e => (.error (.plan (.dependency e)), s)
      | .ok more => (.ok ⟨{ d.plan with link := d.plan.link ++ [project] }, d.next ++ more⟩, s)

/-- The draft with a requirement. -/
def addRequirement (linker : Linker ω) (env : Environment) (d : Workspace.Draft) (r : Requirement)
    (s : ω) : Except InstallError Workspace.Draft × ω :=
  match r.subject with
  | .directory project _ true => linker.addProject env d project r.extras s
  | _ => (.ok { d with plan := { d.plan with arguments := d.plan.arguments ++ r.arguments } }, s)

/-- The draft with the dependencies of a level. -/
def level (linker : Linker ω) (env : Environment) :
    List Dependency → Workspace.Draft → ω → Except InstallError Workspace.Draft × ω
  | [], d, s => (.ok d, s)
  | x :: xs, d, s =>
    match Workspace.chosen env x with
    | .error e => (.error (.plan (.dependency e)), s)
    | .ok none => level linker env xs d s
    | .ok (some r) =>
      match linker.addRequirement env d r s with
      | (.error e, s) => (.error e, s)
      | (.ok d, s) => level linker env xs d s

/-- Planning ends: the plan with the dependencies of a level and of all levels below it. -/
inductive PlansFrom (linker : Linker ω) (env : Environment) :
    List Dependency → Plan → ω → Except InstallError Plan → ω → Prop
  | refused {xs : List Dependency} {plan : Plan} {s s' : ω} {e : InstallError}
      (hlevel : linker.level env xs ⟨plan, []⟩ s = (.error e, s')) :
      PlansFrom linker env xs plan s (.error e) s'
  | done {xs : List Dependency} {plan : Plan} {s s' : ω} {d : Workspace.Draft}
      (hlevel : linker.level env xs ⟨plan, []⟩ s = (.ok d, s')) (hnext : d.next = []) :
      PlansFrom linker env xs plan s (.ok d.plan) s'
  | next {xs : List Dependency} {plan : Plan} {s s₁ s' : ω} {d : Workspace.Draft}
      {planned : Except InstallError Plan}
      (hlevel : linker.level env xs ⟨plan, []⟩ s = (.ok d, s₁)) (hnext : d.next ≠ [])
      (hrest : PlansFrom linker env d.next d.plan s₁ planned s') :
      PlansFrom linker env xs plan s planned s'

/-- The plan of the declared dependencies, or why there is none. -/
def Plans (linker : Linker ω) (env : Environment) (ds : List Dependency) (s : ω)
    (planned : Except InstallError Plan) (s' : ω) : Prop :=
  linker.PlansFrom env ds ∅ s planned s'

/-- An installation of dependencies into an interpreter's environment, which may have to be a
virtual one. -/
inductive Installs (linker : Linker ω) (run : Runner ω) (virtualOnly : Bool) (target : Interpreter)
    (options : InstallOptions) (ds : List Dependency) (s : ω) : Installation → ω → Prop
  | refused (hrefused : (virtualOnly && !target.isVirtual) = true) :
      Installs linker run virtualOnly target options ds s
        { result := .error (.notVirtual target.report.home) } s
  | planned {planned : Except InstallError Plan} {s₁ : ω}
      (hadmitted : (virtualOnly && !target.isVirtual) = false)
      (hplans : linker.Plans target.environment ds s planned s₁) :
      Installs linker run virtualOnly target options ds s
        (linker.proceed run target.executable options planned s₁).1
        (linker.proceed run target.executable options planned s₁).2

end Requisite.Linker
