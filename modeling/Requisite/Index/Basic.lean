import Std.Data.ExtTreeMap
import Requisite.Index.Spec

/-!
# Package indexes

The indexes that pip is told to look into: their URLs by name, and the name of the one that
stands in for the public index.

* `Indexes.add`, `Indexes.addSpec` — one more index, which takes the place of one of its name;
* `Indexes.ofSources` — the indexes of a list of configured sources;
* `Indexes.arguments` — the arguments for pip: the default index first, then every other one in
  the order of their names.
-/

namespace Requisite

/-- The URLs of indexes by name. -/
abbrev IndexUrls := Std.ExtTreeMap String String compare

/-- Named package indexes. -/
structure Indexes where
  /-- The name of the index that stands in for the public one. -/
  default : Option String := none
  urls : IndexUrls := ∅
  deriving DecidableEq

namespace Indexes

/-- No indexes. -/
def empty : Indexes := {}

instance : EmptyCollection Indexes := ⟨empty⟩

instance : Inhabited Indexes := ⟨empty⟩

/-- No index is registered. -/
def isEmpty (ix : Indexes) : Bool :=
  ix.urls.isEmpty

/-- The indexes with one more, which may become the default one. -/
def add (ix : Indexes) (name url : String) (isDefault : Bool) : Indexes where
  default := if isDefault then some name else ix.default
  urls := ix.urls.insert name url

/-- The indexes with a described one, at the URL that is found for it. -/
def addAt (ix : Indexes) (locate : IndexSpec → Except IndexError String) (spec : IndexSpec)
    (isDefault : Bool) : Except IndexError Indexes :=
  (locate spec).map fun url => ix.add spec.name url isDefault

/-- The indexes with a described one, its user and password in its URL. -/
def addSpec (ix : Indexes) (spec : IndexSpec) (isDefault : Bool) : Except IndexError Indexes :=
  ix.addAt IndexSpec.fullUrl spec isDefault

/-! ### Configured sources -/

/-- The text under a key. -/
def string? (source : Toml) (key : String) : Option String :=
  match source.get? key with
  | some (.string s) => some s
  | _ => none

/-- A source is the default one if it says so. -/
def saysDefault (source : Toml) : Bool :=
  match source.get? "default" with
  | some (.boolean b) => b
  | _ => false

/-- The indexes with a configured source. -/
def addSource (ix : Indexes) (source : Toml) : Except IndexFault Indexes :=
  match string? source "name" with
  | none => .error .sourceUnnamed
  | some name =>
    match string? source "url" with
    | none => .error (.sourceWithoutUrl name)
    | some url => .ok (ix.add name url (saysDefault source))

/-- The indexes with a list of configured sources. -/
def addSources (ix : Indexes) : List Toml → Except IndexFault Indexes
  | [] => .ok ix
  | source :: sources =>
    match ix.addSource source with
    | .error e => .error e
    | .ok ix => addSources ix sources

/-- The indexes that a value lists. -/
def readSources : Toml → Except IndexFault Indexes
  | .array items => empty.addSources items
  | _ => .error .notAnArray

/-- The indexes of a list of configured sources; a refusal quotes the list. -/
def ofSources (sources : Toml) : Except IndexError Indexes :=
  (readSources sources).mapError (.invalid (toString sources))

/-! ### Arguments -/

/-- The URL of the default index, if there is one. -/
def defaultUrl (ix : Indexes) : Except IndexError (Option String) :=
  match ix.default with
  | none => .ok none
  | some name =>
    match ix.urls[name]? with
    | none => .error (.unknown name)
    | some url => .ok (some url)

/-- The arguments for every index but the default one, in the order of their names. -/
def extraArguments (ix : Indexes) : List String :=
  ix.urls.toList.flatMap fun (name, url) =>
    if ix.default = some name then [] else ["--extra-index-url", url]

/-- The arguments for all indexes. -/
def arguments (ix : Indexes) : Except IndexError (List String) :=
  ix.defaultUrl.map fun url =>
    (match url with
      | none => []
      | some url => ["--index-url", url]) ++ ix.extraArguments

end Indexes

end Requisite
