import Requisite.Proofs.Distribution.Demands

/-!
# Walks in a distribution graph

How far a name is from the names that are asked for, and how that changes when one more name is
settled, as missing or with the names that its distribution leads to.

* **`DistributionGraph.merge_settle`** — a graph that is merged grew by the names of the layer;
* **`DistributionGraph.depth_settle`** — a name at depth `k` brings nothing closer than `k + 1`, so
  that the depths that are known stay.
-/

namespace Requisite

open Std

namespace DistributionGraph

@[simp] theorem distributions_empty : (∅ : DistributionGraph).distributions = ∅ := rfl

@[simp] theorem dependencies_empty : (∅ : DistributionGraph).dependencies = ∅ := rfl

@[simp] theorem missing_empty : (∅ : DistributionGraph).missing = ∅ := rfl

/-- A name is resolved or known to be missing. -/
def Has (g : DistributionGraph) (name : String) : Prop :=
  name ∈ g.distributions ∨ name ∈ g.missing

theorem contains_iff {g : DistributionGraph} {name : String} :
    g.contains name = true ↔ g.Has name := by
  rw [contains, Bool.or_eq_true]
  rfl

/-- The distribution of one name leads to another one. -/
def DependsOn (g : DistributionGraph) (a b : String) : Prop :=
  ∃ names, g.dependencies[a]? = some names ∧ b ∈ names

/-- A name is reached from one of `roots` over `k` edges. -/
inductive Walk (g : DistributionGraph) (roots : List String) : (k : Nat) → String → Prop
  | root {name : String} (h : name ∈ roots) : Walk g roots 0 name
  | step {k : Nat} {a b : String} (h : Walk g roots k a) (hab : g.DependsOn a b) :
      Walk g roots (k + 1) b

/-- The least number of edges over which a name is reached from one of `roots`. -/
def Depth (g : DistributionGraph) (roots : List String) (k : Nat) (name : String) : Prop :=
  g.Walk roots k name ∧ ∀ j, g.Walk roots j name → k ≤ j

/-- A name is nearer to `roots` than another one, or as near and first in the order of names. -/
def Before (g : DistributionGraph) (roots : List String) (a b : String) : Prop :=
  ∃ i j, g.Depth roots i a ∧ g.Depth roots j b ∧ (i < j ∨ i = j ∧ compare a b = .lt)

theorem Depth.unique {g : DistributionGraph} {roots : List String} {i j : Nat} {name : String}
    (hi : g.Depth roots i name) (hj : g.Depth roots j name) : i = j :=
  Nat.le_antisymm (hi.2 j hj.1) (hj.2 i hi.1)

/-- Of two names only one comes before the other. -/
theorem Before.asymm {g : DistributionGraph} {roots : List String} {a b : String}
    (h : g.Before roots a b) : ¬g.Before roots b a := by
  intro hba
  obtain ⟨i, j, hi, hj, hij⟩ := h
  obtain ⟨j', i', hj', hi', hji⟩ := hba
  obtain rfl := hi.unique hi'
  obtain rfl := hj.unique hj'
  rcases hij with hij | ⟨heq, hlt⟩
  · omega
  · have hgt := (hji.resolve_left (by omega)).2
    rw [OrientedCmp.gt_of_lt hlt] at hgt
    nomatch hgt

theorem Before.ne {g : DistributionGraph} {roots : List String} {a b : String}
    (h : g.Before roots a b) : a ≠ b := by
  intro heq
  subst heq
  exact h.asymm h

/-! ### Settling a name -/

/-- The graph with one more name, as missing or with its distribution and what that leads to under
some extras. -/
def settle (g : DistributionGraph) (env : Environment) (name : String) (extras : Names) :
    Option Distribution → DistributionGraph
  | none => { g with missing := g.missing.insert name }
  | some d =>
    { distributions := g.distributions.insert name d
      dependencies := g.dependencies.insert name (Closure.targets env name extras d)
      missing := g.missing }

theorem getElem?_joinEdges (a b : KeyMap String Names) (n : String) :
    (joinEdges a b)[n]? = ((b[n]?).or a[n]?).map fun _ => a.getD n ∅ ∪ b.getD n ∅ := by
  rw [joinEdges, ExtTreeMap.getElem?_map, ExtTreeMap.getElem?_union]

theorem empty_union (s : Names) : ∅ ∪ s = s := by
  refine ExtTreeSet.ext_mem fun x => ?_
  rw [ExtTreeSet.mem_union_iff, or_iff_right ExtTreeSet.not_mem_empty]

/-- Edges of a name that has none yet are joined as they are. -/
theorem joinEdges_insert {a b : KeyMap String Names} {name : String} (ha : name ∉ a)
    (names : Names) : joinEdges a (b.insert name names) = (joinEdges a b).insert name names := by
  refine ExtTreeMap.ext_getElem? fun n => ?_
  by_cases hn : n = name
  · subst hn
    rw [getElem?_joinEdges, ExtTreeMap.getElem?_insert_self, ExtTreeMap.getElem?_insert_self,
      ExtTreeMap.getD_insert_self, ExtTreeMap.getD_eq_fallback ha, empty_union]
    rfl
  · rw [getElem?_joinEdges, KeyMap.getElem?_insert_of_ne hn, KeyMap.getElem?_insert_of_ne hn,
      getElem?_joinEdges, ExtTreeMap.getD_eq_getD_getElem?, ExtTreeMap.getD_eq_getD_getElem?,
      KeyMap.getElem?_insert_of_ne hn, ExtTreeMap.getD_eq_getD_getElem?]

/-- A name that one graph has no edges of is settled in the other one before or after merging. -/
theorem merge_settle {a b : DistributionGraph} {env : Environment} {name : String}
    {extras : Names} (ha : name ∉ a.dependencies) (found : Option Distribution) :
    a.merge (b.settle env name extras found) = (a.merge b).settle env name extras found := by
  cases found with
  | none =>
    have hmissing : a.missing ∪ b.missing.insert name = (a.missing ∪ b.missing).insert name := by
      refine ExtTreeSet.ext_mem fun x => ?_
      rw [ExtTreeSet.mem_union_iff, KeySet.mem_insert_iff, KeySet.mem_insert_iff,
        ExtTreeSet.mem_union_iff]
      exact or_left_comm
    rw [settle, merge, hmissing]
    rfl
  | some d =>
    have hdistributions : a.distributions ∪ b.distributions.insert name d =
        (a.distributions ∪ b.distributions).insert name d := by
      refine ExtTreeMap.ext_getElem? fun n => ?_
      rw [ExtTreeMap.getElem?_union, ExtTreeMap.getElem?_insert, ExtTreeMap.getElem?_insert,
        ExtTreeMap.getElem?_union]
      split <;> rfl
    rw [settle, merge, hdistributions, joinEdges_insert ha]
    rfl

theorem merge_empty (g : DistributionGraph) : g.merge ∅ = g := by
  have hedges : joinEdges g.dependencies ∅ = g.dependencies := by
    refine ExtTreeMap.ext_getElem? fun n => ?_
    rw [getElem?_joinEdges, ExtTreeMap.getElem?_empty, ExtTreeMap.getD_empty, Option.none_or]
    cases hn : g.dependencies[n]? with
    | none => rfl
    | some names =>
      rw [Option.map_some, ExtTreeMap.getD_eq_getD_getElem?, hn, Option.getD_some]
      refine congrArg some (ExtTreeSet.ext_mem fun x => ?_)
      rw [ExtTreeSet.mem_union_iff, or_iff_left ExtTreeSet.not_mem_empty]
  have hdistributions : g.distributions ∪ ∅ = g.distributions := by
    refine ExtTreeMap.ext_getElem? fun n => ?_
    rw [ExtTreeMap.getElem?_union, ExtTreeMap.getElem?_empty, Option.none_or]
  have hmissing : g.missing ∪ ∅ = g.missing := by
    refine ExtTreeSet.ext_mem fun x => ?_
    rw [ExtTreeSet.mem_union_iff, or_iff_left ExtTreeSet.not_mem_empty]
  show DistributionGraph.mk (g.distributions ∪ ∅) (joinEdges g.dependencies ∅) (g.missing ∪ ∅) = g
  rw [hdistributions, hedges, hmissing]

section Settle

variable {g : DistributionGraph} {env : Environment} {name : String} {extras : Names}
  {found : Option Distribution}

theorem has_settle {n : String} :
    (g.settle env name extras found).Has n ↔ n = name ∨ g.Has n := by
  cases found with
  | none =>
    refine (or_congr_right KeySet.mem_insert_iff).trans ?_
    exact or_left_comm
  | some d =>
    refine (or_congr_left KeyMap.mem_insert_iff).trans ?_
    exact or_assoc

theorem dependsOn_settle (hname : name ∉ g.dependencies) {a b : String} :
    (g.settle env name extras found).DependsOn a b ↔
      g.DependsOn a b ∨ a = name ∧ ∃ d, found = some d ∧ b ∈ Closure.targets env name extras d := by
  cases found with
  | none => exact (or_iff_left fun ⟨_, _, h, _⟩ => nomatch h).symm
  | some d =>
    have hself : ¬g.DependsOn name b := by
      intro hdep
      obtain ⟨names, hnames, -⟩ := hdep
      rw [KeyMap.getElem?_eq_none_iff.2 hname] at hnames
      nomatch hnames
    by_cases ha : a = name
    · subst ha
      rw [or_iff_right hself, and_iff_right rfl]
      simp only [DependsOn, settle, ExtTreeMap.getElem?_insert_self, Option.some.injEq,
        exists_eq_left']
    · rw [or_iff_left fun h => ha h.1]
      simp only [DependsOn, settle, KeyMap.getElem?_insert_of_ne ha]

variable {roots : List String} {k : Nat}

theorem walk_settle (hname : name ∉ g.dependencies) {j : Nat} {n : String}
    (h : g.Walk roots j n) : (g.settle env name extras found).Walk roots j n := by
  induction h with
  | root h => exact .root h
  | step h hab ih => exact .step ih ((dependsOn_settle hname).2 (Or.inl hab))

/-- A walk over an edge that is new is longer than the way to the name. -/
theorem walk_or_lt_of_walk_settle (hname : name ∉ g.dependencies) (hdepth : g.Depth roots k name)
    {j : Nat} {n : String} (h : (g.settle env name extras found).Walk roots j n) :
    g.Walk roots j n ∨ k < j := by
  induction h with
  | root h => exact Or.inl (.root h)
  | step h hab ih =>
    rcases ih with hold | hlater
    · rcases (dependsOn_settle hname).1 hab with hab | ⟨rfl, -⟩
      · exact Or.inl (hold.step hab)
      · exact Or.inr (Nat.lt_succ_of_le (hdepth.2 _ hold))
    · exact Or.inr (Nat.lt_succ_of_lt hlater)

/-- Settling a name leaves all depths up to the next one as they are. -/
theorem depth_settle (hname : name ∉ g.dependencies) (hdepth : g.Depth roots k name) {j : Nat}
    {n : String} (h : g.Depth roots j n) (hj : j ≤ k + 1) :
    (g.settle env name extras found).Depth roots j n := by
  refine ⟨walk_settle hname h.1, fun i hi => ?_⟩
  rcases walk_or_lt_of_walk_settle hname hdepth hi with hold | hlater
  · exact h.2 i hold
  · omega

/-- What a name leads to and is not known yet comes next. -/
theorem depth_target (hname : name ∉ g.dependencies) (hdepth : g.Depth roots k name)
    {d : Distribution} {n : String} (hn : n ∈ Closure.targets env name extras d)
    (hnew : ∀ j, ¬g.Walk roots j n) :
    (g.settle env name extras (some d)).Depth roots (k + 1) n := by
  refine ⟨.step (walk_settle hname hdepth.1) ((dependsOn_settle hname).2 (Or.inr ⟨rfl, d, rfl, hn⟩)),
    fun j hj => ?_⟩
  exact (walk_or_lt_of_walk_settle hname hdepth hj).resolve_left (hnew j)

end Settle

end DistributionGraph

end Requisite
