import Requisite.Text.Cut
import Requisite.Version.Order
import Requisite.Version.Spelling

/-!
# Version clauses

A clause compares a candidate version with a bound.  The bound of an equality may end in `.*`,
which makes it stand for every version whose release begins with it.

* `Relation.split?` — the relation sign at the start of a text;
* `Clause.read` — the clause that a relation and the text of a bound make;
* `Clause.admits` — the candidates that a clause lets through;
* `Clause.chars` — the clause as it is written in a range.
-/

namespace Requisite

/-- How a candidate has to relate to a bound. -/
inductive Relation
  | equal
  | notEqual
  | less
  | atMost
  | greater
  | atLeast
  /-- At least the bound, with the same release up to the bound's last number. -/
  | compatible
  /-- The same text as the bound. -/
  | verbatim
  deriving DecidableEq, Repr

namespace Relation

/-- The sign of a relation. -/
def sign : Relation → String
  | .equal => "=="
  | .notEqual => "!="
  | .less => "<"
  | .atMost => "<="
  | .greater => ">"
  | .atLeast => ">="
  | .compatible => "~="
  | .verbatim => "==="

/-- The signs that a clause may start with, a longer sign before its beginnings.  A single `=`
means equality. -/
def signs : List (String × Relation) :=
  [("===", .verbatim), ("~=", .compatible), ("==", .equal), ("!=", .notEqual), ("<=", .atMost),
    (">=", .atLeast), ("<", .less), (">", .greater), ("=", .equal)]

/-- The relation whose sign starts a text, and what follows the sign. -/
def split? (cs : List Char) : Option (Relation × List Char) :=
  signs.findSome? fun (s, r) => (Text.after? s cs).map fun rest => (r, rest)

/-- Equality and its negation, the relations that take a wildcard. -/
def isEquality : Relation → Bool
  | .equal | .notEqual => true
  | _ => false

end Relation

/-- A relation with its bound.  `text` is the bound as written, without the wildcard. -/
structure Clause where
  relation : Relation
  text : String
  bound : Version
  wildcard : Bool
  deriving DecidableEq, Repr

namespace Clause

/-- The clause of a relation and the text of its bound. -/
def read (relation : Relation) (cs : List Char) : Except VersionError Clause :=
  let cs := Text.trim cs
  let (body, wildcard) :=
    match Text.before? ".*" cs with
    | some body => if relation.isEquality then (body, true) else (cs, false)
    | none => (cs, false)
  match Version.parse (String.ofList body) with
  | .error e => .error e
  | .ok bound =>
    if relation = .compatible ∧ bound.release.length < 2 then
      .error ⟨String.ofList cs, .releaseTooShort⟩
    else .ok { relation, text := String.ofList body, bound, wildcard }

/-- The candidate equals the bound: by its release alone under a wildcard, and without its local
label unless the bound has one too. -/
def meets (c : Clause) (v : Version) : Bool :=
  if c.wildcard then
    v.epoch == c.bound.epoch && Version.releaseStartsWith v.release c.bound.release
  else if c.bound.label.isNone then v.common.same c.bound
  else v.same c.bound

/-- A clause lets a candidate through.  `raw` is the candidate as it is written, which only
`===` looks at.  A local label does not count against a bound; `<` excludes the pre-releases of
its bound and `>` the post-releases, unless the bound is one itself. -/
def admits (c : Clause) (v : Version) (raw : String) : Bool :=
  match c.relation with
  | .equal => c.meets v
  | .notEqual => !c.meets v
  | .atMost => v.common.atMost c.bound
  | .atLeast => c.bound.atMost v.common
  | .less =>
    v.common.before c.bound
      && !(v.isPrerelease && !c.bound.isPrerelease && v.sameRelease c.bound)
  | .greater =>
    c.bound.before v.common
      && !(v.isPostrelease && !c.bound.isPostrelease && v.sameRelease c.bound)
  | .compatible =>
    c.bound.atMost v.common && v.epoch == c.bound.epoch
      && Version.releaseStartsWith v.release c.bound.release.dropLast
  | .verbatim => Text.lower (Text.trim raw.toList) == Text.lower c.text.toList

/-- The clause as it is written in a range. -/
def chars (c : Clause) : List Char :=
  c.relation.sign.toList ++ c.text.toList ++ (if c.wildcard then ".*".toList else [])

instance : ToString Clause where
  toString c := String.ofList c.chars

/-- The clause that a term of a range denotes.  A bare version means equality. -/
def ofTerm (cs : List Char) : Except VersionError Clause :=
  match cs with
  | [] => .error ⟨"", .emptyClause⟩
  | c :: _ =>
    match Relation.split? cs with
    | some (relation, rest) => read relation rest
    | none => if c.isDigit then read .equal cs else .error ⟨String.ofList cs, .relationMissing⟩

end Clause

end Requisite
