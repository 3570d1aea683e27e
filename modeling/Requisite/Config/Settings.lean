import Requisite.Index.Basic
import Requisite.Install.Plan
import Requisite.Requirement.Table

/-!
# Install settings

The settings of a project: the interpreter to install into, how pip is run, the package indexes,
and the dependencies of extras.

* `Settings` — the settings, each with a value for where it is not given;
* `Settings.python` — the interpreter to install into;
* `Settings.options` — how pip is run;
* `Settings.devExtraNames`, `Settings.extra` — the extras of a development environment, and the
  dependencies of an extra.
-/

namespace Requisite

/-- A configured package index. -/
structure IndexSource where
  name : String
  url : String
  isDefault : Bool := false
  username : Option String := none
  password : Option String := none
  deriving DecidableEq, Repr

/-- The index that a configured one describes. -/
def IndexSource.spec (s : IndexSource) : IndexSpec where
  name := s.name
  url := s.url
  username := s.username
  password := s.password

/-- The settings for installing the dependencies of a project. -/
structure Settings where
  /-- The interpreter to install into. -/
  interpreter : Option String := none
  quiet : Bool := false
  upgrade : Bool := false
  /-- Names under which nothing is installed count as errors. -/
  strict : Bool := false
  /-- The extras of a development environment; all of them if it is not given. -/
  devExtras : Option (List String) := none
  /-- The dependencies of extras by their names, in order. -/
  extras : Entries := []
  sources : List IndexSource := []
  deriving Repr

/-- Why settings cannot be used. -/
inductive SettingsError
  | unknownExtra (name : String)
  | dependency (e : DependencyError)
  deriving DecidableEq, Repr

/-- The wording of a refusal. -/
def SettingsError.message : SettingsError → String
  | .unknownExtra name => "unknown extra: " ++ name
  | .dependency e => e.message

namespace Settings

/-- The settings of a project without any. -/
def default : Settings := {}

instance : Inhabited Settings := ⟨default⟩

/-- Nothing is set, or to the value that it has anyway. -/
def isDefault (s : Settings) : Bool :=
  s.interpreter.isNone && !s.quiet && !s.upgrade && !s.strict && s.devExtras.isNone
    && s.extras.isEmpty && s.sources.isEmpty

/-- The interpreter where no other is named. -/
def defaultPython : String := "python"

/-- The interpreter to install into: the one of the settings, or else the one of the environment,
unless it is empty. -/
def python (s : Settings) (fromEnvironment : Option String) : Path :=
  ⟨match s.interpreter with
    | some name => name
    | none => (fromEnvironment.filter fun name => !name.isEmpty).getD defaultPython⟩

/-- The indexes with some configured ones. -/
def addSources (ix : Indexes) : List IndexSource → Except IndexError Indexes
  | [] => .ok ix
  | s :: sources =>
    match ix.addSpec s.spec s.isDefault with
    | .error e => .error e
    | .ok ix => addSources ix sources

/-- The configured indexes. -/
def indexes (s : Settings) : Except IndexError Indexes :=
  addSources ∅ s.sources

/-- How pip is run. -/
def options (s : Settings) : Except IndexError InstallOptions :=
  s.indexes.map fun indexes => { indexes, quiet := s.quiet, upgrade := s.upgrade }

/-- The names of the extras of a development environment. -/
def devExtraNames (s : Settings) : List String :=
  s.devExtras.getD (s.extras.map Prod.fst)

/-- The dependencies of an extra. -/
def extra (s : Settings) (name : String) : Except SettingsError (List Dependency) :=
  match Toml.lookup name s.extras with
  | none => .error (.unknownExtra name)
  | some value => (Dependency.listOf value).mapError .dependency

end Settings

end Requisite
