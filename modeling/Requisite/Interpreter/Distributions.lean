import Requisite.Distribution.Source
import Requisite.Interpreter.Basic
import Requisite.Name

/-!
# The distributions of an interpreter

An interpreter answers which distributions are installed under some names, as a JSON list in the
order of the names.  What it has answered is kept under the canonical spelling of the names, so
that a name is asked for once; a failed call leaves nothing behind.

* `Distribution.listOf?` — the distributions that an output ends with;
* `Interpreter.unknown` — the names that have to be asked for;
* `Interpreter.distributions` — the findings on some names, with at most one call;
* `Interpreter.source` — an interpreter as a source of distributions.
-/

namespace Requisite

open Std

namespace Distribution

/-- The keys of a record of metadata. -/
def keys : List String :=
  ["name", "version", "location", "license", "platform", "requires_python", "requires_dist",
    "provides_extras"]

/-- The distribution that a record denotes.  It has a name and a version. -/
def ofJson? (j : Json) : Option Distribution := do
  let fields ← Json.record? keys 2 j
  let name ← fields.text? "name"
  let version ← fields.text? "version"
  let location ← fields.optional? "location"
  let license ← fields.optional? "license"
  let platform ← fields.optional? "platform"
  let requiresPython ← fields.optional? "requires_python"
  let requiresDist ← fields.texts? "requires_dist"
  let providesExtras ← fields.texts? "provides_extras"
  some {
    name, version, license, platform, requiresPython, requiresDist
    location := location.map Path.mk
    providesExtras := ExtTreeSet.ofList providesExtras }

/-- An entry of a list: a distribution, or `null` for none. -/
def entry? : Json → Option (Option Distribution)
  | .null => some none
  | j => (ofJson? j).map some

/-- The distributions that an output ends with. -/
def listOf? (output : String) : Option (List (Option Distribution)) :=
  match Json.parse? (Text.lastLine output.toList) with
  | some (.array items) => items.mapM entry?
  | _ => none

end Distribution

namespace Interpreter

/-- The names that nothing is known of, the first spelling of each. -/
def unknown (known : Findings) : List String → List String
  | [] => []
  | name :: names =>
    let key := Name.canonical name
    if known.contains key then unknown known names
    else name :: unknown (known.insert key none) names

/-- The answer to a question for some names, one entry for each. -/
def answerOf (executable : Path) (names : List String) (output : String) :
    Except ProcessError (List (Option Distribution)) :=
  match Distribution.listOf? output with
  | none => .error (.protocol executable .metadata)
  | some entries =>
    if entries.length = names.length then .ok entries
    else .error (.protocol executable (.count names.length entries.length))

/-- The findings with those of an answer. -/
def recordAnswer (names : List String) (entries : List (Option Distribution))
    (known : Findings) : Findings :=
  (names.zip entries).foldl (fun known e => known.insert (Name.canonical e.1) e.2) known

/-- The findings on some names, under the spellings that were asked for. -/
def spelled (known : Findings) (names : List String) : Findings :=
  names.foldl (fun found name => found.insert name (known[Name.canonical name]?).join) ∅

variable {ω : Type}

/-- The findings with those on some names, for which the interpreter is called once, or not at
all if they are known. -/
def lookUp (run : Runner ω) (i : Interpreter) (names : List String) (known : Findings) (s : ω) :
    Except ProcessError Findings × ω :=
  match unknown known names with
  | [] => (.ok known, s)
  | name :: names =>
    match run.output i.executable (.distributions (name :: names)) s with
    | (.error e, s) => (.error e, s)
    | (.ok output, s) =>
      ((answerOf i.executable (name :: names) output).map fun entries =>
        recordAnswer (name :: names) entries known, s)

/-- The findings on some names, and all that is known then. -/
def distributions (run : Runner ω) (i : Interpreter) (names : List String) (known : Findings)
    (s : ω) : Except ProcessError Findings × Findings × ω :=
  match i.lookUp run names known s with
  | (.error e, s) => (.error e, known, s)
  | (.ok known, s) => (.ok (spelled known names), known, s)

/-- The distribution of a name, none if it is not installed. -/
def distribution (run : Runner ω) (i : Interpreter) (name : String) (known : Findings) (s : ω) :
    Except ProcessError (Option Distribution) × Findings × ω :=
  match i.distributions run [name] known s with
  | (.error e, known, s) => (.error e, known, s)
  | (.ok found, known, s) => (.ok (found[name]?).join, known, s)

/-- The interpreter as a source.  Its state is what is known of distributions, next to that of the
interpreters; `capacity` bounds the names that it can still report distributions under. -/
def source (run : Runner ω) (i : Interpreter) (capacity : ω → Nat) :
    Source (Findings × ω) ProcessError where
  environment := i.environment
  fetch names state := i.distributions run names state.1 state.2
  capacity state := 2 * state.1.size + capacity state.2 + 1

end Interpreter

end Requisite
