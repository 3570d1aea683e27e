import Requisite.Requirement.Parser
import Requisite.Toml.Spelling

/-!
# Configured dependencies

A configuration maps package names to values: a text is what a requirement text has after the
name, a table has its parts under keys, and a list of both is a choice.

* `Dependency.ofValue` — the dependency that a name and its value denote;
* `Dependency.listOf` — the dependencies of a list of texts or of a table by names.
-/

namespace Requisite

open Text

/-- A table by its entries. -/
abbrev Entries := List (String × Toml)

namespace Entries

/-- The text under a key, none if the key is missing. -/
def string? (name : String) (t : Entries) (key : String) :
    Except DependencyError (Option String) :=
  match Toml.lookup key t with
  | none => .ok none
  | some (.string s) => .ok (some s)
  | some other => .error (.config name (.notAString key other.kind))

/-- The flag under a key, unset if the key is missing. -/
def flag (name : String) (t : Entries) (key : String) : Except DependencyError Bool :=
  match Toml.lookup key t with
  | none => .ok false
  | some (.boolean b) => .ok b
  | some other => .error (.config name (.notABoolean key other.kind))

/-- The texts of a list. -/
def strings? : List Toml → Option (List String)
  | [] => some []
  | .string s :: items => (strings? items).map (s :: ·)
  | _ :: _ => none

/-- The extras, none if the key is missing. -/
def extras (name : String) (t : Entries) : Except DependencyError (List String) :=
  match Toml.lookup "extras" t with
  | none => .ok []
  | some (.array items) =>
    match strings? items with
    | some xs => .ok xs
    | none => .error (.config name .extrasNotStrings)
  | some _ => .error (.config name .extrasNotStrings)

/-- The reference of a repository, of which there may be one. -/
def reference (name : String) (t : Entries) : Except DependencyError (Option Reference) := do
  let rev ← t.string? name "rev"
  let branch ← t.string? name "branch"
  let tag ← t.string? name "tag"
  (Selectors.mk rev branch tag).reference.mapError (.invalid name)

/-- The origin under the first of the keys `git`, `path`, `url` and `version`. -/
def origin (name : String) (t : Entries) : Except DependencyError Origin := do
  match ← t.string? name "git" with
  | some url =>
    let url := ((after? "git+" url.toList).map String.ofList).getD url
    let reference ← t.reference name
    .ok (.repository url reference)
  | none =>
    match ← t.string? name "path" with
    | some path =>
      let develop ← t.flag name "develop"
      let link ← t.flag name "link"
      .ok (.directory ⟨path⟩ develop link)
    | none =>
      match ← t.string? name "url" with
      | some url => .ok (.archive url)
      | none =>
        match ← t.string? name "version" with
        | some version =>
          let range ← (Range.parse version).mapError .range
          let index ← t.string? name "source"
          .ok (.registry range index)
        | none => .error (.config name .noOrigin)

/-- The range of Python versions; a blank one is none. -/
def python (name : String) (t : Entries) : Except DependencyError (Option Range) := do
  match ← t.string? name "python" with
  | none => .ok none
  | some text =>
    if (trim text.toList).isEmpty then .ok none
    else (Range.parse text).map some |>.mapError .range

/-- The requirement that a table denotes. -/
def requirement (name : String) (t : Entries) : Except DependencyError Requirement := do
  let origin ← t.origin name
  let python ← t.python name
  let markers ← t.string? name "markers"
  let extras ← t.extras name
  .ok { name, extras, python, markers, hashes := [], subject := origin }

end Entries

/-- The requirement that a name and a text denote: a target after `@`, a bare version after `=`,
anything else as it is. -/
def Requirement.ofText (name : String) (text : List Char) : Except DependencyError Requirement :=
  let text := trim text
  let joint :=
    if startsWithAny targetStarts text then " @ "
    else if (text.head?.map Char.isDigit).getD false then " =" else " "
  Requirement.read (name.toList ++ joint.toList ++ text)

/-- The requirement that a name and a single value denote. -/
def Requirement.ofValue (name : String) : Toml → Except DependencyError Requirement
  | .string text => Requirement.ofText name text.toList
  | .table entries => Entries.requirement name entries
  | other => .error (.config name (.shape other.kind))

/-- One of the values of a choice, which may be no choice itself. -/
def Requirement.ofOption (name : String) : Toml → Except DependencyError Requirement
  | .array _ => .error (.config name .nestedOptions)
  | value => Requirement.ofValue name value

/-- The dependency that a name and its value denote. -/
def Dependency.ofValue (name : String) : Toml → Except DependencyError Dependency
  | .array [] => .error (.config name .noOptions)
  | .array items => do
    let options ← items.mapM (Requirement.ofOption name)
    .ok (Declared.plain name (.oneOf options))
  | value => (Requirement.ofValue name value).map Requirement.toDependency

/-- One of the texts of a list. -/
def Dependency.ofItem : Toml → Except DependencyError Dependency
  | .string text => (Requirement.parse text).map Requirement.toDependency
  | other => .error (.invalid (toString other) .notAText)

/-- The dependencies of a list of texts, or of a table by names. -/
def Dependency.listOf : Toml → Except DependencyError (List Dependency)
  | .array items => items.mapM Dependency.ofItem
  | .table entries => entries.mapM fun (name, value) => Dependency.ofValue name value
  | other => .error (.invalid (toString other) (.notACollection other.kind))

end Requisite
