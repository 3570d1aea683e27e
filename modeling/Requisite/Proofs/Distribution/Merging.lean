import Requisite.Proofs.Distribution.Walks

/-!
# Merging distribution graphs

What a merged graph has of a name is told by what the two graphs have of it: the distribution of the
second one if it has one, the dependencies of both, and the name is missing if it is so in one.
Graphs with this operation are a monoid in which nothing counts twice; and the two graphs may be
exchanged if they have no name with different distributions.

* **`DistributionGraph.getElem?_joinEdges_eq_merge`** — edges are joined name by name;
* **`DistributionGraph.alikeUpTo_merge_comm_iff`** — when two graphs may be exchanged, whichever
  distributions count as equal;
* **`DistributionGraph.merge_laws`** — the laws together.
-/

namespace Requisite

open Std

/-! ### Sets of names -/

theorem Names.union_assoc (s t u : Names) : s ∪ t ∪ u = s ∪ (t ∪ u) := by
  refine ExtTreeSet.ext_mem fun x => ?_
  rw [ExtTreeSet.mem_union_iff, ExtTreeSet.mem_union_iff, ExtTreeSet.mem_union_iff,
    ExtTreeSet.mem_union_iff, or_assoc]

theorem Names.union_comm (s t : Names) : s ∪ t = t ∪ s := by
  refine ExtTreeSet.ext_mem fun x => ?_
  rw [ExtTreeSet.mem_union_iff, ExtTreeSet.mem_union_iff, or_comm]

theorem Names.union_self (s : Names) : s ∪ s = s := by
  refine ExtTreeSet.ext_mem fun x => ?_
  rw [ExtTreeSet.mem_union_iff, or_self]

instance : Associative (α := Names) (· ∪ ·) := ⟨Names.union_assoc⟩

instance : Commutative (α := Names) (· ∪ ·) := ⟨Names.union_comm⟩

instance : IdempotentOp (α := Names) (· ∪ ·) := ⟨Names.union_self⟩

/-- Distributions that are the same, with locations that are so as paths. -/
def Distribution.Same (d e : Distribution) : Prop :=
  { d with location := none } = { e with location := none } ∧
    d.location.map Path.parts = e.location.map Path.parts

namespace DistributionGraph

variable {a b c : DistributionGraph}

/-! ### What a merged graph has of a name -/

theorem ext_getElem? (hdistributions : ∀ n : String, a.distributions[n]? = b.distributions[n]?)
    (hdependencies : a.dependencies = b.dependencies) (hmissing : a.missing = b.missing) :
    a = b := by
  obtain ⟨distributions, dependencies, missing⟩ := a
  obtain rfl : distributions = b.distributions := ExtTreeMap.ext_getElem? fun n => hdistributions n
  subst hdependencies hmissing
  rfl

/-- The dependencies of a name are those that it has in one graph, or in both. -/
theorem getElem?_joinEdges_eq_merge (a b : KeyMap String Names) (n : String) :
    (joinEdges a b)[n]? = Option.merge (· ∪ ·) a[n]? b[n]? := by
  rw [getElem?_joinEdges, ExtTreeMap.getD_eq_getD_getElem?, ExtTreeMap.getD_eq_getD_getElem?]
  cases a[n]? with
  | none =>
    cases b[n]? with
    | none => rfl
    | some names => exact congrArg some (empty_union names)
  | some names =>
    cases b[n]? with
    | none => exact congrArg some ((Names.union_comm names ∅).trans (empty_union names))
    | some names' => rfl

theorem joinEdges_assoc (a b c : KeyMap String Names) :
    joinEdges (joinEdges a b) c = joinEdges a (joinEdges b c) := by
  refine ExtTreeMap.ext_getElem? fun n => ?_
  simp only [getElem?_joinEdges_eq_merge]
  exact Associative.assoc _ _ _

theorem joinEdges_comm (a b : KeyMap String Names) : joinEdges a b = joinEdges b a := by
  refine ExtTreeMap.ext_getElem? fun n => ?_
  simp only [getElem?_joinEdges_eq_merge]
  exact Commutative.comm _ _

theorem joinEdges_self (a : KeyMap String Names) : joinEdges a a = a := by
  refine ExtTreeMap.ext_getElem? fun n => ?_
  rw [getElem?_joinEdges_eq_merge]
  exact IdempotentOp.idempotent _

theorem getElem?_distributions_merge (a b : DistributionGraph) (n : String) :
    (a.merge b).distributions[n]? = (b.distributions[n]?).or a.distributions[n]? :=
  ExtTreeMap.getElem?_union

/-! ### The laws -/

theorem merge_assoc (a b c : DistributionGraph) : (a.merge b).merge c = a.merge (b.merge c) := by
  refine ext_getElem? (fun n => ?_) (joinEdges_assoc _ _ _) (Names.union_assoc _ _ _)
  simp only [getElem?_distributions_merge, Option.or_assoc]

theorem merge_self (a : DistributionGraph) : a.merge a = a := by
  refine ext_getElem? (fun n => ?_) (joinEdges_self _) (Names.union_self _)
  rw [getElem?_distributions_merge, Option.or_self]

theorem empty_merge (a : DistributionGraph) : (∅ : DistributionGraph).merge a = a := by
  have hdependencies : joinEdges ∅ a.dependencies = a.dependencies :=
    (joinEdges_comm _ _).trans (congrArg dependencies a.merge_empty)
  refine ext_getElem? (fun n => ?_) hdependencies (empty_union _)
  rw [getElem?_distributions_merge, distributions_empty, ExtTreeMap.getElem?_empty, Option.or_none]

/-- Two graphs have distributions that `r` relates under every name that they share. -/
def AgreeUpTo (r : Distribution → Distribution → Prop) (a b : DistributionGraph) : Prop :=
  ∀ (n : String) (d e : Distribution), a.distributions[n]? = some d →
    b.distributions[n]? = some e → r d e

/-- Two graphs are the same but for distributions that `r` relates. -/
structure AlikeUpTo (r : Distribution → Distribution → Prop) (a b : DistributionGraph) : Prop where
  distributions (n : String) : Option.Rel r a.distributions[n]? b.distributions[n]?
  dependencies : a.dependencies = b.dependencies
  missing : a.missing = b.missing

theorem alikeUpTo_eq_iff : AlikeUpTo (· = ·) a b ↔ a = b := by
  constructor
  · intro h
    refine ext_getElem? (fun n => ?_) h.dependencies h.missing
    have hn := h.distributions n
    generalize a.distributions[n]? = x, b.distributions[n]? = y at hn ⊢
    cases hn with
    | some heq => exact congrArg some heq
    | none => rfl
  · intro h
    subst h
    refine ⟨fun n => ?_, rfl, rfl⟩
    cases a.distributions[n]? with
    | none => exact .none
    | some d => exact .some rfl

/-- Two graphs may be exchanged exactly if they agree on what they share. -/
theorem alikeUpTo_merge_comm_iff {r : Distribution → Distribution → Prop} (hr : ∀ d, r d d) :
    AlikeUpTo r (b.merge a) (a.merge b) ↔ AgreeUpTo r a b := by
  constructor
  · intro h n d e hd he
    have hn := h.distributions n
    rw [getElem?_distributions_merge, getElem?_distributions_merge, hd, he] at hn
    cases hn with
    | some hde => exact hde
  · intro h
    refine ⟨fun n => ?_, joinEdges_comm _ _, Names.union_comm _ _⟩
    rw [getElem?_distributions_merge, getElem?_distributions_merge]
    cases hd : a.distributions[n]? with
    | none =>
      cases b.distributions[n]? with
      | none => exact .none
      | some e => exact .some (hr e)
    | some d =>
      cases he : b.distributions[n]? with
      | none => exact .some (hr d)
      | some e => exact .some (h n d e hd he)

theorem agreeUpTo_of_disjoint {r : Distribution → Distribution → Prop}
    (h : ∀ n ∈ a.distributions, n ∉ b.distributions) : AgreeUpTo r a b := by
  intro n d e hd he
  refine absurd ?_ (h n ?_)
  · rw [ExtTreeMap.mem_iff_isSome_getElem?, he]
    rfl
  · rw [ExtTreeMap.mem_iff_isSome_getElem?, hd]
    rfl

/-- Merging is associative, the graph without names is neutral on both sides, and a graph merged
into itself stays as it is.  Two graphs give the same either way round exactly if they agree on the
distribution of every name that they share, and so if they share none, whatever they share of edges
and missing names; and the same holds where locations count as equal if they are so as paths. -/
theorem merge_laws (a b c : DistributionGraph) :
    (a.merge b).merge c = a.merge (b.merge c) ∧
      (∅ : DistributionGraph).merge a = a ∧ a.merge ∅ = a ∧ a.merge a = a ∧
      (b.merge a = a.merge b ↔ AgreeUpTo (· = ·) a b) ∧
      (AlikeUpTo Distribution.Same (b.merge a) (a.merge b) ↔ AgreeUpTo Distribution.Same a b) ∧
      ((∀ n ∈ a.distributions, n ∉ b.distributions) → b.merge a = a.merge b) := by
  have hcomm : b.merge a = a.merge b ↔ AgreeUpTo (· = ·) a b := by
    rw [← alikeUpTo_eq_iff]
    exact alikeUpTo_merge_comm_iff fun _ => rfl
  exact ⟨merge_assoc a b c, a.empty_merge, a.merge_empty, a.merge_self, hcomm,
    alikeUpTo_merge_comm_iff fun _ => ⟨rfl, rfl⟩, fun h => hcomm.2 (agreeUpTo_of_disjoint h)⟩

/-- A graph with one distribution, that needs `lib`; and `docs` is missing. -/
def alone (name version : String) : DistributionGraph where
  distributions := ExtTreeMap.ofList [(name, ({ name, version } : Distribution))]
  dependencies := ExtTreeMap.ofList [(name, ExtTreeSet.ofList ["lib"])]
  missing := ExtTreeSet.ofList ["docs"]

/-- With two versions of one name it counts which graph comes last, and with two names it does
not. -/
theorem merge_laws_alone :
    (alone "app" "2.0").merge (alone "app" "1.0") ≠ (alone "app" "1.0").merge (alone "app" "2.0") ∧
      (alone "lib" "1.0").merge (alone "app" "1.0") =
        (alone "app" "1.0").merge (alone "lib" "1.0") := by
  obtain ⟨-, -, -, -, hcomm, -, -⟩ := merge_laws (alone "app" "1.0") (alone "app" "2.0") ∅
  obtain ⟨-, -, -, -, -, -, hdisjoint⟩ := merge_laws (alone "app" "1.0") (alone "lib" "1.0") ∅
  refine ⟨fun h => ?_, hdisjoint fun n happ hlib => ?_⟩
  · have hversion := congrArg Distribution.version (hcomm.1 h "app" _ _ rfl rfl)
    exact absurd hversion (by decide)
  · simp only [alone, ExtTreeMap.mem_ofList, List.map_cons, List.map_nil, List.contains_cons,
      List.contains_nil, Bool.or_false, beq_iff_eq] at happ hlib
    exact absurd (happ.symm.trans hlib) (by decide)

end DistributionGraph

end Requisite
