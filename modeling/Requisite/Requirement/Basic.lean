import Requisite.Marker.Token
import Requisite.Name
import Requisite.Path
import Requisite.Range.Basic

/-!
# Requirements and dependencies

A requirement names a package and says where it comes from.  A dependency is one requirement, or
a choice between several that share its name.  Both carry extras, a range of Python versions, a
marker and hashes; `Declared` is this frame, and `Origin` and `Choice` are what it frames.

* `Requirement.chars`, `Dependency.chars` — a declaration as it is written;
* `Declared.canonicalName` — the canonical spelling of the declared name;
* `DependencyError` — the declarations that are refused, and why.

Declarations count as equal when all their parts do, ranges being compared by their clauses and
paths by their parts.
-/

namespace Requisite

/-- The commit that a repository is pinned to. -/
inductive Reference
  | rev (value : String)
  | branch (value : String)
  | tag (value : String)
  deriving DecidableEq, Repr

namespace Reference

/-- The selector of a reference. -/
def key : Reference → String
  | .rev _ => "rev"
  | .branch _ => "branch"
  | .tag _ => "tag"

/-- The name of the commit. -/
def value : Reference → String
  | .rev v | .branch v | .tag v => v

end Reference

/-- Where a package comes from. -/
inductive Origin
  /-- A package index, of which a name may be given. -/
  | registry (range : Range) (index : Option String)
  /-- A Git repository. -/
  | repository (url : String) (reference : Option Reference)
  /-- A project in the file system.  A linked project is not installed itself. -/
  | directory (path : Path) (develop link : Bool)
  /-- An archive. -/
  | archive (url : String)
  deriving Repr, BEq

/-- A declaration: a package name with its conditions, and what is declared of it. -/
structure Declared (α : Type) where
  name : String
  extras : List String
  python : Option Range
  markers : Option String
  hashes : List String
  subject : α
  deriving Repr, BEq

/-- A package with its origin. -/
abbrev Requirement := Declared Origin

/-- What a dependency declares: one origin, or a choice between requirements. -/
inductive Choice
  | one (origin : Origin)
  | oneOf (options : List Requirement)
  deriving Repr, BEq

/-- A declared dependency. -/
abbrev Dependency := Declared Choice

namespace Declared

variable {α β : Type}

/-- A declaration without conditions. -/
def plain (name : String) (subject : α) : Declared α :=
  { name, extras := [], python := none, markers := none, hashes := [], subject }

/-- The declaration of another subject under the same name and conditions. -/
def withSubject (d : Declared α) (subject : β) : Declared β :=
  { d with subject }

/-- The canonical spelling of the declared name. -/
def canonicalName (d : Declared α) : String :=
  Name.canonical d.name

end Declared

/-- The dependency on a single requirement. -/
def Requirement.toDependency (r : Requirement) : Dependency :=
  r.withSubject (.one r.subject)

/-- Any version of a package from an index. -/
def Requirement.ofName (name : String) : Requirement :=
  Declared.plain name (.registry Range.any none)

/-! ### Writing declarations -/

/-- The extras in brackets, nothing if there are none. -/
def extrasChars (extras : List String) : List Char :=
  if extras.isEmpty then [] else '[' :: [','].intercalate (extras.map String.toList) ++ [']']

/-- The flags of a project, nothing if there are none. -/
def flagChars (develop link : Bool) : List Char :=
  match develop, link with
  | false, false => []
  | true, false => "#develop".toList
  | false, true => "#link".toList
  | true, true => "#develop&link".toList

/-- The origin as it is written after a name. -/
def Origin.chars : Origin → List Char
  | .registry range _ => if range.isAny then [] else ' ' :: range.written.toList
  | .repository url none => " @ git+".toList ++ url.toList
  | .repository url (some r) =>
    " @ git+".toList ++ url.toList ++ '#' :: r.key.toList ++ '=' :: r.value.toList
  | .directory path develop link => " @ ".toList ++ path.text.toList ++ flagChars develop link
  | .archive url => " @ ".toList ++ url.toList

/-- The name with its extras. -/
def Declared.head {α : Type} (d : Declared α) : List Char :=
  d.name.toList ++ extrasChars d.extras

/-- The marker and the hashes as they are written after an origin. -/
def Declared.tail {α : Type} (d : Declared α) : List Char :=
  (match d.markers with
    | some m => ';' :: ' ' :: m.toList
    | none => [])
    ++ d.hashes.flatMap fun h => " --hash=".toList ++ h.toList

/-- The requirement as it is written. -/
def Requirement.chars (r : Requirement) : List Char :=
  r.head ++ r.subject.chars ++ r.tail

/-- The dependency as it is written.  A choice shows its options alone. -/
def Dependency.chars (d : Dependency) : List Char :=
  match d.subject with
  | .one origin => d.head ++ origin.chars ++ d.tail
  | .oneOf options =>
    d.head ++ " \x7b ".toList ++ " | ".toList.intercalate (options.map Requirement.chars)
      ++ " \x7d".toList

theorem Requirement.chars_toDependency (r : Requirement) : r.toDependency.chars = r.chars := rfl

instance : ToString Dependency where
  toString d := String.ofList d.chars

instance : ToString Requirement where
  toString r := String.ofList r.chars

/-! ### Refusals -/

/-- Why a text or a value is no dependency, or not the one that is wanted. -/
inductive DependencyFault
  | bareTarget
  | unsupportedOption (name : String)
  | hashMissing
  | nameMissing
  | nameInvalid (name : String)
  | selectorRepeated (key : String)
  | selectorsConflict (first second : String)
  | digestMissing (algorithm : String)
  | targetUnknown (target : String)
  | unbalanced (range : String)
  | notAChoice
  | notAText
  | notACollection (kind : String)
  deriving DecidableEq, Repr

/-- The wording of a fault. -/
def DependencyFault.message : DependencyFault → String
  | .bareTarget => "a URL or path must be prefixed with a package name ('name @ target')"
  | .unsupportedOption name => "unsupported option '--" ++ name ++ "'"
  | .hashMissing => "option '--hash' requires a value"
  | .nameMissing => "missing package name"
  | .nameInvalid name => "invalid package name '" ++ name ++ "'"
  | .selectorRepeated key => "'" ++ key ++ "' is given more than once"
  | .selectorsConflict a b =>
    "conflicting version control references '" ++ a ++ "' and '" ++ b ++ "'"
  | .digestMissing algorithm => "hash '" ++ algorithm ++ "' in URL fragment has no digest"
  | .targetUnknown target =>
    "'" ++ target ++ "' is neither a URL nor a path starting with '/', './' or '../'"
  | .unbalanced range => "unbalanced parentheses in '" ++ range ++ "'"
  | .notAChoice => "not a dependency with alternatives"
  | .notAText => "expected a dependency string"
  | .notACollection kind => "expected an array or a table, found " ++ kind

/-- Why a configured value is no dependency. -/
inductive ConfigFault
  | noOptions
  | nestedOptions
  | shape (kind : String)
  | notAString (key kind : String)
  | notABoolean (key kind : String)
  | noOrigin
  | extrasNotStrings
  deriving DecidableEq, Repr

/-- The wording of a fault. -/
def ConfigFault.message : ConfigFault → String
  | .noOptions => "an empty list of alternatives"
  | .nestedOptions => "nested lists of alternatives"
  | .shape kind => "expected a string, table or list, found " ++ kind
  | .notAString key kind => "'" ++ key ++ "' must be a string, found " ++ kind
  | .notABoolean key kind => "'" ++ key ++ "' must be a boolean, found " ++ kind
  | .noOrigin => "expected one of the keys 'git', 'path', 'url' or 'version'"
  | .extrasNotStrings => "'extras' must be a list of strings"

/-- A declaration that was refused, or whose conditions have no value. -/
inductive DependencyError
  | invalid (input : String) (fault : DependencyFault)
  | extras (input : String)
  | config (name : String) (fault : ConfigFault)
  | version (e : VersionError)
  | range (e : RangeError)
  | marker (e : MarkerError)
  deriving DecidableEq, Repr

/-- The wording of a refusal. -/
def DependencyError.message : DependencyError → String
  | .invalid input fault => "invalid dependency '" ++ input ++ "': " ++ fault.message
  | .extras input => "invalid package name with extras: '" ++ input ++ "'"
  | .config name fault => "cannot interpret dependency '" ++ name ++ "': " ++ fault.message
  | .version e => e.message
  | .range e => e.message
  | .marker e => e.message

end Requisite
