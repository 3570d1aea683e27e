import Requisite.Config.Settings
import Requisite.Toml.Parser

/-!
# Settings in documents

The settings of a project stand in the table `install` of a document of their own, or in the table
`tool.slap.install` of a document that they share with others.  The second counts if there are
both.

* `Settings.ofToml?` — the settings of a table;
* `Settings.ofDocument?`, `Settings.ofText?` — the settings of a document;
* `Settings.load` — the settings of a file.

A table may be given as a list of its values in the order of its keys, and dates are read as
texts.
-/

namespace Requisite

/-! ### Dates as texts -/

namespace Toml

mutual

/-- The value with its dates as texts. -/
def withoutDates : Toml → Toml
  | .datetime text => .string text
  | .array items => .array (withoutDatesAll items)
  | .table entries => .table (withoutDatesIn entries)
  | v => v

/-- The items with their dates as texts. -/
def withoutDatesAll : List Toml → List Toml
  | [] => []
  | v :: vs => withoutDates v :: withoutDatesAll vs

/-- The entries with their dates as texts. -/
def withoutDatesIn : List (String × Toml) → List (String × Toml)
  | [] => []
  | (key, v) :: rest => (key, withoutDates v) :: withoutDatesIn rest

end

end Toml

/-! ### Fields -/

namespace Entries

/-- The entries of a record with the given keys: of a table, or of a list with their values in
order. -/
def record? (keys : List String) : Toml → Option Entries
  | .table entries => some entries
  | .array items => if items.length ≤ keys.length then some (keys.zip items) else none
  | _ => none

/-- The text of a key that must not be missing. -/
def text? (t : Entries) (key : String) : Option String :=
  match Toml.lookup key t with
  | some (.string s) => some s
  | _ => none

/-- The text of a key that may be missing. -/
def optional? (t : Entries) (key : String) : Option (Option String) :=
  match Toml.lookup key t with
  | none => some none
  | some (.string s) => some (some s)
  | _ => none

/-- The truth value of a key, false if it is missing. -/
def truth? (t : Entries) (key : String) : Option Bool :=
  match Toml.lookup key t with
  | none => some false
  | some (.boolean b) => some b
  | _ => none

/-- The texts of a key that may be missing. -/
def texts? (t : Entries) (key : String) : Option (Option (List String)) :=
  match Toml.lookup key t with
  | none => some none
  | some (.array items) => (strings? items).map some
  | _ => none

/-- The table of a key, empty if it is missing. -/
def table? (t : Entries) (key : String) : Option Entries :=
  match Toml.lookup key t with
  | none => some []
  | some (.table entries) => some entries
  | _ => none

/-- The list of a key, empty if it is missing. -/
def items? (t : Entries) (key : String) : Option (List Toml) :=
  match Toml.lookup key t with
  | none => some []
  | some (.array items) => some items
  | _ => none

end Entries

/-! ### Records -/

/-- The configured index that a record denotes. -/
def IndexSource.ofToml? (v : Toml) : Option IndexSource := do
  let t ← Entries.record? ["name", "url", "default", "username", "password"] v
  let name ← t.text? "name"
  let url ← t.text? "url"
  let isDefault ← t.truth? "default"
  let username ← t.optional? "username"
  let password ← t.optional? "password"
  some { name, url, isDefault, username, password }

namespace Settings

/-- The keys of the settings. -/
def keys : List String :=
  ["python", "quiet", "upgrade", "strict", "dev-extras", "extras", "source"]

/-- The settings that a record denotes. -/
def ofRecord? (v : Toml) : Option Settings := do
  let t ← Entries.record? keys v
  let interpreter ← t.optional? "python"
  let quiet ← t.truth? "quiet"
  let upgrade ← t.truth? "upgrade"
  let strict ← t.truth? "strict"
  let devExtras ← t.texts? "dev-extras"
  let extras ← t.table? "extras"
  let sources ← t.items? "source"
  let sources ← sources.mapM IndexSource.ofToml?
  some { interpreter, quiet, upgrade, strict, devExtras, extras, sources }

/-- The settings that a value denotes. -/
def ofToml? (v : Toml) : Option Settings :=
  ofRecord? v.withoutDates

/-- The value that a document has for the settings. -/
def find? (document : Toml) : Option Toml :=
  (((document.get? "tool").bind (Toml.get? "slap")).bind (Toml.get? "install")).or
    (document.get? "install")

/-- The settings of a document, none if they have a value of a wrong type. -/
def ofDocument? (document : Toml) : Option Settings :=
  match find? document with
  | none => some default
  | some v => ofToml? v

/-- The settings of a text, none if it is no document or they have a value of a wrong type. -/
def ofText? (text : String) : Option Settings :=
  (Toml.parse? text).bind ofDocument?

end Settings

/-! ### Files -/

/-- What is found at the path of a configuration file. -/
inductive FileContent
  | missing
  /-- Something that cannot be read as a text. -/
  | unreadable
  | text (content : String)
  deriving DecidableEq, Repr

/-- Why there are no settings. -/
inductive LoadError
  | notFound (path : Path)
  | unreadable
  | malformed
  deriving DecidableEq, Repr

/-- The wording of a missing file. -/
def notFoundMessage (path : Path) : String :=
  "install configuration not found: " ++ path.text

namespace Settings

/-- The settings of a text. -/
def read (text : String) : Except LoadError Settings :=
  match ofText? text with
  | none => .error .malformed
  | some s => .ok s

/-- The settings of the file at a path. -/
def load (path : Path) : FileContent → Except LoadError Settings
  | .missing => .error (.notFound path)
  | .unreadable => .error .unreadable
  | .text content => read content

end Settings

end Requisite
