import Requisite.Marker.Evaluation
import Requisite.Requirement.Basic

/-!
# Dependencies that apply

A declaration applies to an environment when the Python version lies within its range and its
marker holds.

* `Declared.applies` — whether a declaration applies;
* `Dependency.filter` — the dependencies of a list that apply;
* `Dependency.select` — the first option of a choice that applies.

A condition without a value is an error, and of several errors the first counts.
-/

namespace Requisite

/-- The range of Python versions admits the environment. -/
def Environment.admits (env : Environment) (python : Option Range) :
    Except DependencyError Bool :=
  match python with
  | none => .ok true
  | some range => (range.accepts (env.valueOf .pythonVersion)).mapError .version

/-- The marker holds in the environment. -/
def Environment.satisfies (env : Environment) (markers : Option String)
    (extras : Option Names) : Except DependencyError Bool :=
  match markers with
  | none => .ok true
  | some markers => (env.evaluate markers extras).mapError .marker

/-- The declaration applies to the environment.  The marker is not looked at when the Python
version is out of range. -/
def Declared.applies {α : Type} (d : Declared α) (env : Environment) (extras : Option Names) :
    Except DependencyError Bool :=
  match env.admits d.python with
  | .error e => .error e
  | .ok false => .ok false
  | .ok true => env.satisfies d.markers extras

/-- The declarations that apply. -/
def Declared.applicable {α : Type} (env : Environment) (extras : Option Names) :
    List (Declared α) → Except DependencyError (List (Declared α))
  | [] => .ok []
  | d :: ds =>
    match d.applies env extras with
    | .error e => .error e
    | .ok b => (applicable env extras ds).map fun rest => if b then d :: rest else rest

/-- The first option that applies, none if no option does. -/
def selectOption (options : List Requirement) (env : Environment) (extras : Option Names) :
    Except DependencyError (Option Requirement) :=
  (Declared.applicable env extras options).map List.head?

/-- The option of a choice that is taken. -/
def Dependency.select (d : Dependency) (env : Environment) (extras : Option Names) :
    Except DependencyError (Option Requirement) :=
  match d.subject with
  | .one _ => .error (.invalid d.name .notAChoice)
  | .oneOf options => selectOption options env extras

end Requisite
