import Requisite.Distribution.Basic

/-!
# Sources of distributions

A source answers which distributions are installed under some names.  Its state `σ` may change
with every question, and a question may fail with an error `ε`.

* `Source` — an environment with a way to ask for distributions;
* `Catalog` — a source that answers from a table, and keeps the lists of names that it was asked
  for.
-/

namespace Requisite

open Std

/-- What is known of some names: a distribution, or that there is none. -/
abbrev Findings := KeyMap String (Option Distribution)

/-- Something that knows which distributions are installed. -/
structure Source (σ ε : Type) where
  /-- The environment that the distributions are installed into. -/
  environment : Environment
  /-- The findings on some names; a name without an entry is not installed. -/
  fetch : List String → σ → Except ε Findings × σ
  /-- A bound on the number of names that it can report a distribution under. -/
  capacity : σ → Nat

/-- A table of distributions. -/
structure Catalog (ε : Type) where
  environment : Environment
  installed : KeyMap String Distribution
  /-- The error of a list of names that is not answered. -/
  refusal : List String → Option ε
  /-- A name that is not installed gets an entry nevertheless. -/
  lists : String → Bool

namespace Catalog

variable {ε : Type}

/-- The findings on the names of a list. -/
def findings (c : Catalog ε) (names : List String) : Findings :=
  names.foldl (fun found name =>
    match c.installed[name]? with
    | some d => found.insert name (some d)
    | none => if c.lists name then found.insert name none else found) ∅

/-- The table as a source.  Its state is the lists of names that were asked for, in order. -/
def source (c : Catalog ε) : Source (List (List String)) ε where
  environment := c.environment
  fetch names asked :=
    (match c.refusal names with
      | some e => .error e
      | none => .ok (c.findings names), asked ++ [names])
  capacity _ := c.installed.size

end Catalog

end Requisite
