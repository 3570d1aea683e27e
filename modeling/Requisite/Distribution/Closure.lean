import Requisite.Distribution.Source
import Requisite.Requirement.Parser
import Requisite.Requirement.Selection

/-!
# The distributions behind declared dependencies

The names of the declared dependencies are the first layer.  Each layer is looked up at once,
except for names that are known already, and the names that its distributions require and that
were not met before are the next layer.

* `Source.closure` — the graph of all names that are met;
* `Findings` are kept for all names of the layers, so that a name is asked for once.

A declaration whose conditions have no value counts as applying.  A requirement that cannot be
read is left out, and so is one of a distribution on itself.
-/

namespace Requisite

open Std

/-- The extras that are asked for, by name. -/
abbrev Requests := KeyMap String Names

namespace Requests

/-- The requests with some extras of a name. -/
def add (q : Requests) (name : String) (extras : List String) : Requests :=
  q.insert name ((q.getD name ∅).insertMany extras)

end Requests

/-- The declaration applies, or its conditions have no value. -/
def Declared.mayApply {α : Type} (d : Declared α) (env : Environment) (extras : Names) : Bool :=
  match d.applies env (some extras) with
  | .ok b => b
  | .error _ => true

namespace Closure

/-! ### Declared names -/

/-- The name and the extras that a dependency asks for, if it applies.  A choice asks for its
option; one whose options have no value asks for its own name. -/
def declared (env : Environment) (d : Dependency) : Option (String × List String) :=
  let extras : Names := ExtTreeSet.ofList d.extras
  if !d.mayApply env extras then none
  else
    match d.subject with
    | .one _ => some (d.canonicalName, d.extras)
    | .oneOf options =>
      match selectOption options env (some extras) with
      | .ok (some r) => some (r.canonicalName, d.extras ++ r.extras)
      | .ok none => none
      | .error _ => some (d.canonicalName, d.extras)

/-- The names and extras that a list of dependencies asks for. -/
def declaredAll (env : Environment) (ds : List Dependency) : List (String × List String) :=
  ds.filterMap (declared env)

/-- The requests of some names and extras. -/
def requestsOf (asked : List (String × List String)) : Requests :=
  asked.foldl (fun q (name, extras) => q.add name extras) ∅

/-! ### One layer -/

/-- The requirement of a text, if it can be read, may apply and is on another name. -/
def demand (env : Environment) (name : String) (extras : Names) (text : String) :
    Option Requirement :=
  match Requirement.parse text with
  | .error _ => none
  | .ok r => if r.mayApply env extras && r.canonicalName != name then some r else none

/-- The requirements of a distribution under some extras. -/
def demands (env : Environment) (name : String) (extras : Names) (d : Distribution) :
    List Requirement :=
  d.requiresDist.filterMap (demand env name extras)

/-- What the names of a layer have led to so far. -/
structure Progress where
  graph : DistributionGraph
  requests : Requests
  discovered : Names

/-- The progress with one more name of the layer.  `known` are the names met before. -/
def visit (env : Environment) (known : String → Bool) (found : Findings) (p : Progress)
    (name : String) : Progress :=
  match (found[name]?).join with
  | none => { p with graph := { p.graph with missing := p.graph.missing.insert name } }
  | some d =>
    let extras := p.requests.getD name ∅ ∩ d.providesExtras
    let rs := demands env name extras d
    let names := rs.map Declared.canonicalName
    { graph := {
        distributions := p.graph.distributions.insert name d
        dependencies := p.graph.dependencies.insert name (ExtTreeSet.ofList names)
        missing := p.graph.missing }
      requests := rs.foldl (fun q r => q.add r.canonicalName r.extras) p.requests
      discovered := p.discovered.insertMany (names.filter fun n => !known n) }

/-- What the names of a layer lead to, in the order of the names. -/
def visitLayer (env : Environment) (graph : DistributionGraph) (layer : Names)
    (requests : Requests) (found : Findings) : Progress :=
  let known name := graph.contains name || layer.contains name
  layer.toList.foldl (visit env known found) ⟨∅, requests, ∅⟩

/-! ### All layers -/

variable {σ ε : Type}

/-- The names of a layer that nothing is known of. -/
def unknown (layer : Names) (found : Findings) : List String :=
  layer.toList.filter fun name => !found.contains name

/-- The findings with an entry for each of `names`, taken from an answer. -/
def record (names : List String) (answer found : Findings) : Findings :=
  names.foldl (fun found name => found.insert name (answer[name]?).join) found

/-- The findings with those on a layer, for which the source is asked once, or not at all if all
its names are known. -/
def lookUp (src : Source σ ε) (layer : Names) (found : Findings) (s : σ) :
    Except ε Findings × σ :=
  match unknown layer found with
  | [] => (.ok found, s)
  | name :: names =>
    match src.fetch (name :: names) s with
    | (.error e, s) => (.error e, s)
    | (.ok answer, s) => (.ok (record (name :: names) answer found), s)

/-- The graph with at most `count` more layers, the findings, and the state of the source. -/
def grow (src : Source σ ε) :
    (count : Nat) → Names → DistributionGraph → Requests → Findings → σ →
      Except ε DistributionGraph × Findings × σ
  | 0, _, graph, _, found, s => (.ok graph, found, s)
  | count + 1, layer, graph, requests, found, s =>
    if layer.isEmpty then (.ok graph, found, s)
    else
      match lookUp src layer found s with
      | (.error e, s) => (.error e, found, s)
      | (.ok found, s) =>
        let p := visitLayer src.environment graph layer requests found
        grow src count p.discovered (graph.merge p.graph) p.requests found s

end Closure

/-- The graph of the names that the declared dependencies lead to, the findings on all of them
next to those that were known before, and the state of the source.  Every layer but the last has
a distribution that no earlier layer had, so that their number is bounded. -/
def Source.closure {σ ε : Type} (src : Source σ ε) (ds : List Dependency) (found : Findings)
    (s : σ) : Except ε DistributionGraph × Findings × σ :=
  let asked := Closure.declaredAll src.environment ds
  let layer : Names := ExtTreeSet.ofList (asked.map Prod.fst)
  Closure.grow src (src.capacity s + found.size + 2) layer ∅ (Closure.requestsOf asked) found s

end Requisite
