import Requisite.Text.Basic
import Requisite.Toml.Spelling
import Requisite.Url.Parser

/-!
# Descriptions of package indexes

An index is described by a text such as `name=internal,url=https://host/simple,username=me`: parts
with a key and a value, in any order, each key at most once.

* `IndexSpec.parse` — the index that a text describes;
* `IndexSpec.chars` — the description of an index, with its password masked;
* `IndexSpec.fullUrl` — the URL of an index with its user and password in it.
-/

namespace Requisite

open Text

/-- A described index.  A password comes with a user. -/
structure IndexSpec where
  name : String
  url : String
  username : Option String
  password : Option String
  deriving DecidableEq, Repr

/-- Why a text or a value describes no index. -/
inductive IndexFault
  | notAPart (part : String)
  | unknownKey (key : String)
  | repeated (key : String)
  | missing (key : String)
  | passwordAlone
  | url (fault : UrlFault)
  /-- The URL has no place for a login. -/
  | noLogin
  | notAnArray
  | sourceUnnamed
  | sourceWithoutUrl (name : String)
  deriving DecidableEq, Repr

/-- The wording of a fault. -/
def IndexFault.message : IndexFault → String
  | .notAPart part => "expected key=value, got '" ++ part ++ "'"
  | .unknownKey key => "unknown key '" ++ key ++ "'"
  | .repeated key => "'" ++ key ++ "' is given more than once"
  | .missing key => "missing '" ++ key ++ "'"
  | .passwordAlone => "'password' requires 'username'"
  | .url fault => fault.message
  | .noLogin => "URL cannot carry credentials"
  | .notAnArray => "expected an array of sources"
  | .sourceUnnamed => "source is missing 'name'"
  | .sourceWithoutUrl name => "source '" ++ name ++ "' is missing 'url'"

/-- An index that cannot be used. -/
inductive IndexError
  | invalid (spec : String) (fault : IndexFault)
  /-- The default index is none of the registered ones. -/
  | unknown (name : String)
  deriving DecidableEq, Repr

/-- The wording of a refusal. -/
def IndexError.message : IndexError → String
  | .invalid spec fault => "invalid index spec '" ++ spec ++ "': " ++ fault.message
  | .unknown name => "unknown package index: " ++ name

namespace IndexSpec

/-! ### Reading a description -/

/-- The keys of a description. -/
inductive Key
  | name
  | url
  | username
  | password
  deriving DecidableEq, Repr

/-- The spelling of a key. -/
def Key.text : Key → String
  | .name => "name"
  | .url => "url"
  | .username => "username"
  | .password => "password"

/-- The key of a spelling. -/
def Key.read? (cs : List Char) : Option Key :=
  [Key.name, .url, .username, .password].find? fun key => key.text.toList == cs

/-- The values of a description by their keys. -/
abbrev Parts := List (Key × List Char)

/-- The value of a key. -/
def Parts.value? (parts : Parts) (key : Key) : Option (List Char) :=
  parts.lookup key

/-- The key and the value of a part, blanks around them ignored. -/
def readPart (part : List Char) : Except IndexFault (Key × List Char) :=
  match cut '=' part with
  | none => .error (.notAPart (String.ofList part))
  | some (key, value) =>
    match Key.read? (trim key) with
    | none => .error (.unknownKey (String.ofList (trim key)))
    | some key => .ok (key, trim value)

/-- The values of some parts next to those in `seen`, whose keys must not come again. -/
def readParts (seen : Parts) : List (List Char) → Except IndexFault Parts
  | [] => .ok seen
  | part :: rest =>
    match readPart part with
    | .error e => .error e
    | .ok (key, value) =>
      if (seen.value? key).isSome then .error (.repeated key.text)
      else readParts (seen ++ [(key, value)]) rest

/-- The value of a key that must not be missing or empty. -/
def Parts.required (parts : Parts) (key : Key) : Except IndexFault String :=
  match parts.value? key with
  | none | some [] => .error (.missing key.text)
  | some value => .ok (String.ofList value)

/-- The index that the values of a description denote. -/
def ofParts (parts : Parts) : Except IndexFault IndexSpec :=
  match parts.required .name, parts.required .url with
  | .error e, _ => .error e
  | _, .error e => .error e
  | .ok name, .ok url =>
    let username := (parts.value? .username).map String.ofList
    let password := (parts.value? .password).map String.ofList
    if password.isSome && username.isNone then .error .passwordAlone
    else .ok { name, url, username, password }

/-- The index that a description denotes. -/
def read (cs : List Char) : Except IndexFault IndexSpec :=
  match readParts [] (cs.splitOn ',') with
  | .error e => .error e
  | .ok parts => ofParts parts

/-- The index that a text describes; a refusal quotes the text. -/
def parse (spec : String) : Except IndexError IndexSpec :=
  (read spec.toList).mapError (.invalid spec)

/-! ### Writing a description -/

/-- The description of an index, with its password masked. -/
def chars (spec : IndexSpec) : List Char :=
  "name=".toList ++ spec.name.toList ++ ",url=".toList ++ spec.url.toList
    ++ (match spec.username with
      | none => []
      | some username => ",username=".toList ++ username.toList)
    ++ (if spec.password.isSome then ",password=".toList ++ Url.mask else [])

instance : ToString IndexSpec where
  toString spec := String.ofList spec.chars

/-- The description of an index as it is shown. -/
def masked (spec : IndexSpec) : IndexSpec :=
  { spec with password := spec.password.map fun _ => String.ofList Url.mask }

/-! ### The URL with a login -/

/-- The URL of an index with its user and password in it; without a user the URL stays as it
is written. -/
def fullUrl (spec : IndexSpec) : Except IndexError String :=
  match spec.username with
  | none => .ok spec.url
  | some username =>
    match Url.parse spec.url.toList with
    | .error fault => .error (.invalid spec.url (.url fault))
    | .ok url =>
      match url.withLogin username.toList (spec.password.getD "").toList with
      | none => .error (.invalid spec.url .noLogin)
      | some site => .ok (String.ofList site.chars)

end IndexSpec

end Requisite
