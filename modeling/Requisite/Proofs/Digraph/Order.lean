import Mathlib.Data.Fintype.Card
import Mathlib.Data.Set.Finite.List
import Mathlib.Logic.Relation
import Requisite.Proofs.Digraph.Waves

/-!
# Topological order

What the waves of a graph place are the nodes that no cycle leads to.  A node below a cycle waits
for a predecessor below it and is never ready; and of nodes that are not below one, a first one
among those that wait would have nothing to wait for.

* **`Digraph.BelowCycle.pred`**, **`Digraph.Places.not_belowCycle`** — nothing below a cycle is
  placed;
* **`Digraph.Places.belowCycle_of_notMem`** — everything else is;
* **`Digraph.sort_orders_or_names_below_cycle`** — the order has every node once and after its
  predecessors, or the nodes below a cycle are named.
-/

open Relation

namespace Requisite.Digraph

open Std

variable {κ ν ε : Type} [Ord κ] [TransOrd κ] {g : Digraph κ ν ε}

/-! ### Cycles -/

/-- There is an edge from one node to another one. -/
def Edge (g : Digraph κ ν ε) (a b : κ) : Prop :=
  (a, b) ∈ g.edges

/-- No node can be reached from itself. -/
def Acyclic (g : Digraph κ ν ε) : Prop :=
  ∀ id, ¬TransGen g.Edge id id

/-- A node lies on a cycle or can be reached from one. -/
def BelowCycle (g : Digraph κ ν ε) (id : κ) : Prop :=
  ∃ c, TransGen g.Edge c c ∧ ReflTransGen g.Edge c id

theorem belowCycle_of_cycle {id : κ} (h : TransGen g.Edge id id) : g.BelowCycle id :=
  ⟨id, h, .refl⟩

theorem BelowCycle.tail {a b : κ} (h : g.BelowCycle a) (hab : g.Edge a b) : g.BelowCycle b := by
  obtain ⟨c, hc, hca⟩ := h
  exact ⟨c, hc, hca.tail hab⟩

/-- A node below a cycle has a predecessor below it. -/
theorem BelowCycle.pred {id : κ} (h : g.BelowCycle id) : ∃ a, g.Edge a id ∧ g.BelowCycle a := by
  obtain ⟨c, hc, hcid⟩ := h
  rcases hcid.cases_tail with rfl | ⟨a, hca, haid⟩
  · obtain ⟨a, hida, haid⟩ := TransGen.tail'_iff.1 hc
    exact ⟨a, haid, id, hc, hida⟩
  · exact ⟨a, haid, c, hc, hca⟩

theorem acyclic_iff_not_belowCycle : g.Acyclic ↔ ∀ id, ¬g.BelowCycle id := by
  constructor
  · intro h id hid
    obtain ⟨c, hc, -⟩ := hid
    exact h c hc
  · exact fun h id hid => h id (belowCycle_of_cycle hid)

theorem BelowCycle.mem_vertices (h : g.Indexed) {id : κ} (hid : g.BelowCycle id) :
    id ∈ g.vertices := by
  obtain ⟨a, ha, -⟩ := hid.pred
  exact (h.ends_mem a id ha).2

variable [LawfulEqOrd κ]

/-- Among nodes that are not below a cycle some come first. -/
theorem wellFounded_of_not_belowCycle (g : Digraph κ ν ε) :
    WellFounded fun a b : {id // id ∈ g.vertices ∧ ¬g.BelowCycle id} =>
      TransGen g.Edge a.1 b.1 := by
  have hkeys : {id | id ∈ g.vertices ∧ ¬g.BelowCycle id}.Finite :=
    (List.finite_toSet g.vertices.keys).subset fun id hid => ExtTreeMap.mem_keys.2 hid.1
  have : Finite {id // id ∈ g.vertices ∧ ¬g.BelowCycle id} := hkeys.to_subtype
  let r (a b : {id // id ∈ g.vertices ∧ ¬g.BelowCycle id}) : Prop := TransGen g.Edge a.1 b.1
  have : IsTrans _ r := ⟨fun _ _ _ hab hbc => TransGen.trans hab hbc⟩
  have : Std.Irrefl r := ⟨fun a ha => a.2.2 (belowCycle_of_cycle ha)⟩
  exact Finite.wellFounded_of_trans_of_irrefl r

/-! ### What is placed -/

section Places

variable {placed : KeySet κ} {order : List κ}

theorem Places.notMem_of_mem (h : g.Places placed order) : ∀ id ∈ order, id ∉ placed := by
  induction h with
  | stop => exact fun _ hid => absurd hid List.not_mem_nil
  | place hready hnew hrest ih =>
    intro x hx hplaced
    rcases List.mem_cons.1 hx with rfl | hx
    · exact hnew hplaced
    · exact ih x hx (KeySet.mem_insert_iff.2 (Or.inr hplaced))

theorem Places.nodup (h : g.Places placed order) : order.Nodup := by
  induction h with
  | stop => exact List.nodup_nil
  | place hready hnew hrest ih =>
    refine List.nodup_cons.2 ⟨fun hid => ?_, ih⟩
    exact hrest.notMem_of_mem _ hid (KeySet.mem_insert_iff.2 (Or.inl rfl))

omit [LawfulEqOrd κ] in
theorem Places.mem_vertices (h : g.Places placed order) : ∀ id ∈ order, id ∈ g.vertices := by
  induction h with
  | stop => exact fun _ hid => absurd hid List.not_mem_nil
  | place hready hnew hrest ih =>
    intro x hx
    rcases List.mem_cons.1 hx with rfl | hx
    · exact hready.1
    · exact ih x hx

/-- A node comes after its predecessors. -/
theorem Places.sublist (h : g.Places placed order) {a b : κ} (hab : g.Edge a b) (hb : b ∈ order) :
    a ∈ placed ∨ [a, b].Sublist order := by
  induction h with
  | stop => exact absurd hb List.not_mem_nil
  | @place placed id order hready hnew hrest ih =>
    rcases List.mem_cons.1 hb with rfl | hlater
    · exact Or.inl (hready.2 a hab)
    · rcases ih hlater with ha | ha
      · rcases KeySet.mem_insert_iff.1 ha with rfl | ha
        · exact Or.inr ((List.singleton_sublist.2 hlater).cons_cons a)
        · exact Or.inl ha
      · exact Or.inr (ha.cons id)

/-- Nothing is left that is ready. -/
theorem Places.mem_of_ready (h : g.Places placed order) {id : κ}
    (hid : g.Ready (placed.insertMany order) id) : id ∈ placed ∨ id ∈ order := by
  induction h with
  | stop hall =>
    rw [ExtTreeSet.insertMany_nil] at hid
    exact Or.inl (hall id hid)
  | @place placed x order hready hnew hrest ih =>
    rw [ExtTreeSet.insertMany_cons] at hid
    rcases ih hid with hmem | hmem
    · rcases KeySet.mem_insert_iff.1 hmem with rfl | hmem
      · exact Or.inr List.mem_cons_self
      · exact Or.inl hmem
    · exact Or.inr (List.mem_cons_of_mem x hmem)

/-- Nothing below a cycle is placed. -/
theorem Places.not_belowCycle (h : g.Places placed order)
    (hplaced : ∀ id ∈ placed, ¬g.BelowCycle id) : ∀ id ∈ order, ¬g.BelowCycle id := by
  induction h with
  | stop => exact fun _ hid => absurd hid List.not_mem_nil
  | @place placed x order hready hnew hrest ih =>
    have hx : ¬g.BelowCycle x := by
      intro hbelow
      obtain ⟨a, hax, ha⟩ := hbelow.pred
      exact hplaced a (hready.2 a hax) ha
    intro id hid
    rcases List.mem_cons.1 hid with rfl | hid
    · exact hx
    · refine ih (fun y hy => ?_) id hid
      rcases KeySet.mem_insert_iff.1 hy with rfl | hy
      · exact hx
      · exact hplaced y hy

/-- A node that is left over is below a cycle. -/
theorem Places.belowCycle_of_notMem (h : g.Places ∅ order) (hg : g.Indexed) {id : κ}
    (hmem : id ∈ g.vertices) (hid : id ∉ order) : g.BelowCycle id := by
  by_contra hnot
  let left : Set {id // id ∈ g.vertices ∧ ¬g.BelowCycle id} := {x | x.1 ∉ order}
  -- a first node among those that are left over and not below a cycle
  obtain ⟨x, hx, hmin⟩ :=
    (wellFounded_of_not_belowCycle g).has_min left ⟨⟨id, hmem, hnot⟩, hid⟩
  refine (h.mem_of_ready ⟨x.2.1, fun a ha => ?_⟩).elim ExtTreeSet.not_mem_empty hx
  by_contra hplaced
  have haorder : a ∉ order := fun hmem => hplaced (KeySet.mem_insertMany.2 (Or.inr hmem))
  have habelow : ¬g.BelowCycle a := fun hbelow => x.2.2 (hbelow.tail ha)
  exact hmin ⟨a, (hg.ends_mem a x ha).1, habelow⟩ haorder (TransGen.single ha)

theorem Places.mem_iff (h : g.Places ∅ order) (hg : g.Indexed) {id : κ} :
    id ∈ order ↔ id ∈ g.vertices ∧ ¬g.BelowCycle id := by
  constructor
  · intro hid
    refine ⟨h.mem_vertices id hid, h.not_belowCycle (fun x hx => ?_) id hid⟩
    exact absurd hx ExtTreeSet.not_mem_empty
  · intro hid
    obtain ⟨hmem, hnot⟩ := hid
    by_contra hid
    exact hnot (h.belowCycle_of_notMem hg hmem hid)

/-- What is left over is what is below a cycle. -/
theorem Places.left_iff (h : g.Places ∅ order) (hg : g.Indexed) {id : κ} :
    id ∈ g.vertices ∧ id ∉ order ↔ g.BelowCycle id := by
  rw [h.mem_iff hg, not_and, not_not]
  constructor
  · intro hid
    exact hid.2 hid.1
  · intro hbelow
    exact ⟨hbelow.mem_vertices hg, fun _ => hbelow⟩

/-- The order is complete if nothing is below a cycle. -/
theorem Places.length_eq_iff (h : g.Places ∅ order) (hg : g.Indexed) :
    order.length = g.size ↔ g.Acyclic := by
  have hlength := length_unplaced_insertMany h.nodup h.notMem_of_mem h.mem_vertices
  have hall : (g.unplaced ∅).length = g.size := by
    rw [Digraph.size, ← ExtTreeMap.length_keys, unplaced, List.length_filter_eq_length_iff]
    intro id _
    rw [ExtTreeSet.contains_empty]
    rfl
  have hleft : order.length = g.size ↔ g.unplaced ((∅ : KeySet κ).insertMany order) = [] := by
    rw [← List.length_eq_zero_iff]
    omega
  rw [hleft, acyclic_iff_not_belowCycle, List.eq_nil_iff_forall_not_mem]
  refine forall_congr' fun id => not_congr ?_
  rw [mem_unplaced, KeySet.mem_insertMany, or_iff_right ExtTreeSet.not_mem_empty]
  exact h.left_iff hg

theorem Places.mem_missingFrom (h : g.Places ∅ order) (hg : g.Indexed) {id : κ} :
    id ∈ g.missingFrom order ↔ g.BelowCycle id := by
  show id ∈ g.unplaced (ExtTreeSet.ofList order) ↔ g.BelowCycle id
  rw [mem_unplaced, KeySet.mem_ofList]
  exact h.left_iff hg

end Places

omit [LawfulEqOrd κ] in
theorem missingFrom_ordered (g : Digraph κ ν ε) (order : List κ) :
    (g.missingFrom order).Pairwise fun a b => compare a b = .lt :=
  ExtTreeMap.ordered_keys.filter _

/-! ### The order -/

theorem sort_of_places {tie : κ → κ → Ordering} {waves : List (List κ)}
    (hwaves : g.waves tie = .ok waves) (h : g.Places ∅ waves.flatten) (hg : g.Indexed) :
    (g.Acyclic ∧ g.sort tie = .ok waves.flatten) ∨
      (¬g.Acyclic ∧ g.sort tie = .error (.cycle (g.missingFrom waves.flatten))) := by
  rw [sort, hwaves]
  by_cases hlength : waves.flatten.length = g.size
  · exact Or.inl ⟨(h.length_eq_iff hg).1 hlength, if_pos hlength⟩
  · exact Or.inr ⟨fun hacyclic => hlength ((h.length_eq_iff hg).2 hacyclic), if_neg hlength⟩

/-- After any calls and for any tie-break, the loop over the waves ends by itself.  Without a cycle
it gives every node once, each after its predecessors; with one, exactly the nodes on a cycle or
below one are named, in the order of their keys, and nothing else is ever reported. -/
theorem sort_orders_or_names_below_cycle (cs : List (Change κ ν ε)) (tie : κ → κ → Ordering) :
    (after cs).Ends tie (after cs).inDegrees (tieSort tie (after cs).sources.toList)
      ((after cs).waves tie) ∧
    ((∃ order, (after cs).sort tie = .ok order) ↔ (after cs).Acyclic) ∧
    (∀ order, (after cs).sort tie = .ok order →
      order.Nodup ∧ (∀ id, id ∈ order ↔ id ∈ (after cs).vertices) ∧
        ∀ a b, (after cs).Edge a b → [a, b].Sublist order) ∧
    (∀ e, (after cs).sort tie = .error e →
      ∃ unreached, e = .cycle unreached ∧ unreached.Pairwise (fun a b => compare a b = .lt) ∧
        ∀ id, id ∈ unreached ↔ (after cs).BelowCycle id) := by
  have hg : (after cs).Indexed := indexed_after cs
  obtain ⟨waves, hwaves, hends, hplaces⟩ := waves_places hg tie
  refine ⟨hwaves ▸ hends, ?_⟩
  rcases sort_of_places hwaves hplaces hg with ⟨hacyclic, hsort⟩ | ⟨hcyclic, hsort⟩
  · have hmem : ∀ id, id ∈ waves.flatten ↔ id ∈ (after cs).vertices := fun id =>
      (hplaces.mem_iff hg).trans (and_iff_left (acyclic_iff_not_belowCycle.1 hacyclic id))
    refine ⟨iff_of_true ⟨_, hsort⟩ hacyclic, fun order horder => ?_, fun e he => ?_⟩
    · obtain rfl : waves.flatten = order := Except.ok.inj (hsort.symm.trans horder)
      refine ⟨hplaces.nodup, hmem, fun a b hab => ?_⟩
      have hb : b ∈ waves.flatten := (hmem b).2 (hg.ends_mem a b hab).2
      exact (hplaces.sublist hab hb).resolve_left ExtTreeSet.not_mem_empty
    · nomatch hsort.symm.trans he
  · have hno : ¬∃ order, (after cs).sort tie = .ok order := by
      intro hok
      obtain ⟨order, horder⟩ := hok
      nomatch hsort.symm.trans horder
    refine ⟨iff_of_false hno hcyclic, fun order horder => ?_, fun e he => ?_⟩
    · exact absurd ⟨order, horder⟩ hno
    · obtain rfl := Except.error.inj (hsort.symm.trans he)
      exact ⟨_, rfl, missingFrom_ordered _ _, fun id => hplaces.mem_missingFrom hg⟩

/-- A loop, a node below it, and an edge that no cycle leads to. -/
def belowLoop : List (Change Nat String Nat) :=
  [.addNode 1 "a", .addNode 2 "b", .addNode 3 "c", .addNode 4 "d", .addEdge 1 1 0, .addEdge 1 2 1,
    .addEdge 3 4 2, .addEdge 4 2 3]

theorem sort_belowLoop : (after belowLoop).sort compare = .error (.cycle [1, 2]) ∧
    (after belowLoop).BelowCycle 2 ∧ ¬(after belowLoop).BelowCycle 4 ∧
    ¬(after belowLoop).Acyclic := by
  have hsort : (after belowLoop).sort compare = .error (.cycle [1, 2]) := by
    decide +kernel
  obtain ⟨-, hok, -, herror⟩ := sort_orders_or_names_below_cycle belowLoop compare
  obtain ⟨unreached, he, -, hmem⟩ := herror _ hsort
  obtain rfl : [1, 2] = unreached := Error.cycle.inj he
  refine ⟨hsort, (hmem 2).1 (by decide), fun h => absurd ((hmem 4).2 h) (by decide), fun h => ?_⟩
  obtain ⟨order, horder⟩ := hok.2 h
  nomatch hsort.symm.trans horder

end Requisite.Digraph
