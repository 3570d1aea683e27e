import Requisite.Digraph.Sort
import Requisite.Marker.Evaluation
import Requisite.Path

/-!
# Installed distributions and their graph

A distribution is what is installed under a package name.  A distribution graph has the
distributions that some names lead to, the names that each of them depends on, and the names under
which nothing is installed.

* `DistributionGraph.merge` — two graphs in one; on a shared name the second one's distribution
  counts, and the dependencies of both;
* `DistributionGraph.installOrder` — the names of the distributions, each after everything that
  it depends on.
-/

namespace Requisite

open Std

/-- The metadata of an installed distribution. -/
structure Distribution where
  name : String
  version : String
  location : Option Path := none
  license : Option String := none
  platform : Option String := none
  requiresPython : Option String := none
  /-- The requirements, as they are written. -/
  requiresDist : List String := []
  /-- The extras that the distribution knows. -/
  providesExtras : Names := ∅
  deriving DecidableEq

/-- The distributions that some names lead to.  All names are canonical. -/
structure DistributionGraph where
  distributions : KeyMap String Distribution
  dependencies : KeyMap String Names
  missing : Names
  deriving DecidableEq

namespace DistributionGraph

/-- The graph without names. -/
def empty : DistributionGraph := ⟨∅, ∅, ∅⟩

instance : EmptyCollection DistributionGraph := ⟨empty⟩

/-- The names of both maps, each with its names in both. -/
def joinEdges (a b : KeyMap String Names) : KeyMap String Names :=
  (a ∪ b).map fun name _ => a.getD name ∅ ∪ b.getD name ∅

/-- Two graphs in one. -/
def merge (a b : DistributionGraph) : DistributionGraph where
  distributions := a.distributions ∪ b.distributions
  dependencies := joinEdges a.dependencies b.dependencies
  missing := a.missing ∪ b.missing

/-- The name was found installed or missing. -/
def contains (g : DistributionGraph) (name : String) : Bool :=
  g.distributions.contains name || g.missing.contains name

/-- The edges from a dependency to what depends on it. -/
def upward (g : DistributionGraph) : List ((String × String) × Unit) :=
  g.dependencies.toList.flatMap fun (dependent, names) =>
    names.toList.map fun name => ((name, dependent), ())

/-- The graph of the installed names, with an edge from each dependency to what depends on it. -/
def installed (g : DistributionGraph) : Digraph String Unit Unit :=
  Digraph.ofLists (g.distributions.keys.map fun name => (name, ())) g.upward

/-- The installed names, each after everything that it depends on; names of one wave in their own
order. -/
def installOrder (g : DistributionGraph) : Except (Digraph.Error String) (List String) :=
  g.installed.sort compare

end DistributionGraph

end Requisite
