import Requisite.Text.Basic
import Requisite.Text.Cut

/-!
# Package names and extras

A package name starts and ends with an ASCII letter or digit and may hold `-`, `_` and `.` in
between.  Spellings that differ in case or in the separators name the same package.

* `Name.canonical` — the spelling that all spellings of a name share;
* `Name.isValid` — the form of a package name;
* `Name.splitExtras` — the parts of `name[extra, …]`.
-/

namespace Requisite.Name

open Text

/-- The characters that separate the pieces of a name. -/
def isSeparator (c : Char) : Bool :=
  c == '-' || c == '_' || c == '.'

/-- Every run of separators as one `-`, and the capitals lowered. -/
def collapse : List Char → List Char
  | [] => []
  | [c] => if isSeparator c then ['-'] else [c.toLower]
  | c :: d :: cs =>
    if !isSeparator c then c.toLower :: collapse (d :: cs)
    else if isSeparator d then collapse (d :: cs)
    else '-' :: collapse (d :: cs)

/-- The canonical spelling of a name, blanks at its ends ignored. -/
def canonical (name : String) : String :=
  String.ofList (collapse (trim name.toList))

/-- A character that a package name may hold. -/
def isNameChar (c : Char) : Bool :=
  c.isAlphanum || isSeparator c

/-- A package name. -/
def isValid (cs : List Char) : Bool :=
  match cs with
  | [] => false
  | c :: _ =>
    c.isAlphanum && cs.all isNameChar && (cs.getLast?.map Char.isAlphanum).getD false

/-- Why a name with extras was refused. -/
inductive Fault
  /-- The brackets are misplaced or enclose an empty entry. -/
  | extras
  | missing
  | invalid (name : String)
  deriving DecidableEq, Repr

/-- The entries of a bracket: at least one, none empty, no bracket among them. -/
def entries? (inner : List Char) : Option (List (List Char)) :=
  let extras := (inner.splitOn ',').map trim
  if inner.contains '[' || inner.contains ']' || extras.any List.isEmpty then none
  else some extras

/-- The text before the bracket and the entries within it; no bracket is no entry. -/
def bracket? (cs : List Char) : Option (List Char × List (List Char)) :=
  match cut '[' cs with
  | none => if cs.contains ']' then none else some (cs, [])
  | some (name, rest) => do
    let inner ← before? "]" rest
    let extras ← entries? inner
    some (trim name, extras)

/-- The name and the extras of `name[extra, …]`. -/
def splitExtras (cs : List Char) : Except Fault (String × List String) :=
  match bracket? (trim cs) with
  | none => .error .extras
  | some (name, extras) =>
    if isValid name then .ok (String.ofList name, extras.map String.ofList)
    else if name.isEmpty then .error .missing
    else .error (.invalid (String.ofList name))

end Requisite.Name
