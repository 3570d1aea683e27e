import Requisite.Install.Plan
import Requisite.Interpreter.Basic

/-!
# Installing

pip is run once, or not at all if it has nothing to install, and the projects are linked when it
has succeeded.

* `Linker`, `Event` — the way to link projects, and what an installation does;
* `Linker.proceed` — an installation once there is a plan or none, with what it did;
* `Installer.install` — an installation with the projects of a workspace.
-/

namespace Requisite

/-- Why an installation failed. -/
inductive InstallError
  /-- The interpreter belongs to no virtual environment, and that was asked for. -/
  | notVirtual (home : Path)
  | plan (e : PlanError)
  | index (e : IndexError)
  | process (e : ProcessError)
  | link (e : LinkError)
  deriving DecidableEq, Repr

/-- The wording of the refusal to install outside a virtual environment. -/
def notVirtualMessage (home : Path) : String :=
  "refusing to install into " ++ home.text ++ ": not a virtual environment"

/-- What an installation does. -/
inductive Event
  /-- An interpreter is called, and something comes of it. -/
  | ran (program : Path) (call : Call) (outcome : Outcome)
  /-- A project is linked, or refused. -/
  | linked (project : Path) (answer : Except InstallError Unit)

/-- An installation. -/
structure Installation where
  /-- The exit code. -/
  result : Except InstallError Int
  /-- What was done, in this order. -/
  events : List Event := []

namespace Installation

/-- The installation with something that was done before. -/
def after (done : Installation) (event : Event) : Installation :=
  { done with events := event :: done.events }

/-- The interpreters that were called, and what for. -/
def runs (done : Installation) : List (Path × Call) :=
  done.events.filterMap fun
    | .ran program call _ => some (program, call)
    | .linked _ _ => none

/-- The projects that were to be linked, the one that was refused included. -/
def attempted (done : Installation) : List Path :=
  done.events.filterMap fun
    | .ran _ _ _ => none
    | .linked project _ => some project

/-- The projects that were linked. -/
def linked (done : Installation) : List Path :=
  done.events.filterMap fun
    | .linked project (.ok _) => some project
    | _ => none

end Installation

/-- The exit code of an installation when pip has ended: -1 stands for a signal. -/
def exitCode : Option Nat → Int
  | none => -1
  | some code => code

/-- The way to link projects, with a state `ω` that it may change. -/
structure Linker (ω : Type) where
  /-- There is a directory at a path. -/
  isDirectory : Path → ω → Bool
  /-- The dependencies that the project at a path declares. -/
  dependencies : Path → ω → Except InstallError (List Dependency) × ω
  /-- Links the project at a path. -/
  link : Path → ω → Except InstallError Unit × ω

namespace Linker

variable {ω : Type}

/-- The links of some projects, up to the first one that is refused. -/
def linkAll (linker : Linker ω) : List Path → ω → Installation × ω
  | [], s => ({ result := .ok 0 }, s)
  | project :: projects, s =>
    match linker.link project s with
    | (.error e, s) => ({ result := .error e, events := [.linked project (.error e)] }, s)
    | (.ok _, s) =>
      let (done, s) := linkAll linker projects s
      (done.after (.linked project (.ok ())), s)

/-- The installation of a plan after pip was called.  An exit code other than zero is the result,
and nothing is linked then. -/
def finish (linker : Linker ω) (executable : Path) (plan : Plan) (s : ω) :
    Outcome → Installation × ω
  | .notStarted => ({ result := .error (.process (.notStarted executable)) }, s)
  | .finished code _ _ =>
    if code = some 0 then linker.linkAll plan.link s else ({ result := .ok (exitCode code) }, s)

/-- The installation of a plan. -/
def carryOut (linker : Linker ω) (run : Runner ω) (executable : Path) (options : InstallOptions)
    (plan : Plan) (s : ω) : Installation × ω :=
  if !plan.hasRequirements then linker.linkAll plan.link s
  else
    match plan.pipArguments options with
    | .error e => ({ result := .error (.index e) }, s)
    | .ok arguments =>
      let (outcome, s) := run executable (.pip arguments) s
      let (done, s) := linker.finish executable plan s outcome
      (done.after (.ran executable (.pip arguments) outcome), s)

/-- The installation once planning has ended. -/
def proceed (linker : Linker ω) (run : Runner ω) (executable : Path) (options : InstallOptions)
    (planned : Except InstallError Plan) (s : ω) : Installation × ω :=
  match planned with
  | .error e => ({ result := .error e }, s)
  | .ok plan => linker.carryOut run executable options plan s

end Linker

/-- The way to install: how projects are linked, and whether virtual environments alone are
installed into. -/
structure Installer where
  workspace : Workspace
  /-- Why a project is not linked, none if it is. -/
  refuses : Path → Option String
  virtualOnly : Bool

namespace Installer

variable {ω : Type}

/-- The projects of a workspace, which never change. -/
def linker (installer : Installer) : Linker ω where
  isDirectory project _ := installer.workspace.isDirectory project
  dependencies project s := (.ok (installer.workspace.dependencies project), s)
  link project s :=
    match installer.refuses project with
    | some reason => (.error (.link ⟨project, reason⟩), s)
    | none => (.ok (), s)

/-- An installation of dependencies into an interpreter's environment. -/
def install (installer : Installer) (run : Runner ω) (target : Interpreter)
    (options : InstallOptions) (ds : List Dependency) (s : ω) : Installation × ω :=
  if installer.virtualOnly && !target.isVirtual then
    ({ result := .error (.notVirtual target.report.home) }, s)
  else
    let planned := (installer.workspace.plan target.environment ds).mapError .plan
    installer.linker.proceed run target.executable options planned s

end Installer

end Requisite
