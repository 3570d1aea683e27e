import Requisite.Distribution.Closure

/-!
# Resolving declared dependencies

* `Source.resolve` — the graph behind declared dependencies together with its install order;
* `Resolution.missing`, `Resolution.isComplete` — the names under which nothing is installed.
-/

namespace Requisite

/-- A distribution graph with its install order. -/
structure Resolution where
  graph : DistributionGraph
  order : List String

namespace Resolution

/-- The names under which nothing is installed. -/
def missing (r : Resolution) : List String :=
  r.graph.missing.toList

/-- Everything that is declared or required is installed. -/
def isComplete (r : Resolution) : Bool :=
  r.graph.missing.isEmpty

end Resolution

/-- Why dependencies were not resolved. -/
inductive ResolveError (ε : Type)
  /-- The source could not be asked. -/
  | source (e : ε)
  /-- Names under which nothing is installed, where that counts as an error. -/
  | missing (names : List String)
  /-- The distributions depend on each other in a circle. -/
  | order (e : Digraph.Error String)

/-- The wording of missing names. -/
def missingMessage (names : List String) : String :=
  "distributions not installed: " ++ ", ".intercalate names

/-- The wording of a circle. -/
def orderMessage (e : Digraph.Error String) : String :=
  "distribution graph error: " ++ e.message Text.quoted

/-- The graph behind declared dependencies with its order.  In strict mode no name may be
missing. -/
def Source.resolve {σ ε : Type} (src : Source σ ε) (ds : List Dependency) (strict : Bool)
    (s : σ) : Except (ResolveError ε) Resolution × σ :=
  match src.closure ds ∅ s with
  | (.error e, _, s) => (.error (.source e), s)
  | (.ok graph, _, s) =>
    if strict && !graph.missing.isEmpty then (.error (.missing graph.missing.toList), s)
    else
      match graph.installOrder with
      | .error e => (.error (.order e), s)
      | .ok order => (.ok ⟨graph, order⟩, s)

end Requisite
