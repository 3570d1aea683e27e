import Mathlib.Data.List.Nodup
import Requisite.Digraph.Sort
import Requisite.Proofs.Digraph.Indexes

/-!
# Waves

A graph places its nodes in waves and counts, for every node, the predecessors that are not placed
yet.  `Digraph.Counted` says that the counts are right, and `Digraph.Due` which wave is due: every
node that is ready and not placed, once.  Placing a wave that is due makes the next wave due.

* **`Digraph.place_eq_ok`** — placing a wave never misses a node, keeps the counts right, and
  releases each node with the last of its predecessors;
* **`Digraph.Due.next`** — the wave after a wave that is due is due;
* **`Digraph.waves_places`** — the bound on the number of waves is never what ends them, and the
  waves place one ready node after the other until none is left.
-/

namespace Requisite.Digraph

open Std

variable {κ ν ε : Type} [Ord κ] [TransOrd κ] {g : Digraph κ ν ε}

/-! ### Nodes that are ready -/

/-- A node is there and all of its predecessors are placed. -/
def Ready (g : Digraph κ ν ε) (placed : KeySet κ) (id : κ) : Prop :=
  id ∈ g.vertices ∧ ∀ a, (a, id) ∈ g.edges → a ∈ placed

theorem Ready.mono {placed placed' : KeySet κ} {id : κ} (h : g.Ready placed id)
    (hsub : ∀ a, a ∈ placed → a ∈ placed') : g.Ready placed' id :=
  ⟨h.1, fun a ha => hsub a (h.2 a ha)⟩

/-- The predecessors of a node that are not placed yet. -/
def waiting (g : Digraph κ ν ε) (placed : KeySet κ) (id : κ) : List κ :=
  (g.incoming id).toList.filter fun a => !placed.contains a

/-- The successors of a node that wait for nothing more when it is placed after `placed`. -/
def released (g : Digraph κ ν ε) (placed : KeySet κ) (id : κ) : List κ :=
  (g.outgoing id).toList.filter fun b => (g.waiting (placed.insert id) b).isEmpty

/-- The nodes that are released while a wave is placed after `placed`, node by node. -/
def nextWave (g : Digraph κ ν ε) (placed : KeySet κ) : List κ → List κ
  | [] => []
  | id :: wave => g.released placed id ++ nextWave g (placed.insert id) wave

theorem nodup_waiting (placed : KeySet κ) (id : κ) : (g.waiting placed id).Nodup :=
  (KeySet.nodup_toList _).filter _

theorem nodup_released (placed : KeySet κ) (id : κ) : (g.released placed id).Nodup :=
  (KeySet.nodup_toList _).filter _

variable [LawfulEqOrd κ]

theorem mem_waiting (h : g.Indexed) {placed : KeySet κ} {a id : κ} :
    a ∈ g.waiting placed id ↔ (a, id) ∈ g.edges ∧ a ∉ placed := by
  rw [waiting, List.mem_filter, ExtTreeSet.mem_toList, h.mem_incoming, Bool.not_eq_true',
    ← Bool.not_eq_true]
  rfl

theorem ready_iff_waiting (h : g.Indexed) {placed : KeySet κ} {id : κ} :
    g.Ready placed id ↔ id ∈ g.vertices ∧ g.waiting placed id = [] := by
  refine and_congr_right fun _ => ?_
  rw [List.eq_nil_iff_forall_not_mem]
  simp only [mem_waiting h, not_and, not_not]

/-- What is released with a node is what becomes ready with it. -/
theorem mem_released (h : g.Indexed) {placed : KeySet κ} {id : κ} (hid : id ∉ placed) (n : κ) :
    n ∈ g.released placed id ↔ g.Ready (placed.insert id) n ∧ ¬g.Ready placed n := by
  rw [released, List.mem_filter, ExtTreeSet.mem_toList, h.mem_outgoing, List.isEmpty_iff]
  constructor
  · intro hn
    obtain ⟨hedge, hempty⟩ := hn
    have hn : n ∈ g.vertices := (h.ends_mem id n hedge).2
    exact ⟨(ready_iff_waiting h).2 ⟨hn, hempty⟩, fun hready => hid (hready.2 id hedge)⟩
  · intro hn
    obtain ⟨hready, hnot⟩ := hn
    refine ⟨?_, ((ready_iff_waiting h).1 hready).2⟩
    by_contra hedge
    refine hnot ⟨hready.1, fun a ha => ?_⟩
    rcases KeySet.mem_insert_iff.1 (hready.2 a ha) with rfl | hplaced
    · exact absurd ha hedge
    · exact hplaced

/-- The rest of a wave is not placed with its first node. -/
theorem new_tail {placed : KeySet κ} {id : κ} {wave : List κ} (hnodup : (id :: wave).Nodup)
    (hnew : ∀ x ∈ id :: wave, x ∉ placed) : ∀ x ∈ wave, x ∉ placed.insert id := by
  intro x hx hplaced
  rcases KeySet.mem_insert_iff.1 hplaced with rfl | hplaced
  · exact (List.nodup_cons.1 hnodup).1 hx
  · exact hnew x (List.mem_cons_of_mem id hx) hplaced

/-- While a wave is placed, what becomes ready is released. -/
theorem mem_nextWave (h : g.Indexed) {placed : KeySet κ} {wave : List κ} (hnodup : wave.Nodup)
    (hnew : ∀ id ∈ wave, id ∉ placed) (n : κ) : n ∈ g.nextWave placed wave ↔
      g.Ready (placed.insertMany wave) n ∧ ¬g.Ready placed n := by
  induction wave generalizing placed with
  | nil =>
    rw [ExtTreeSet.insertMany_nil]
    exact iff_of_false List.not_mem_nil fun h => h.2 h.1
  | cons id wave ih =>
    have hwave : wave.Nodup := (List.nodup_cons.1 hnodup).2
    have hnew' : ∀ x ∈ wave, x ∉ placed.insert id := new_tail hnodup hnew
    have hfirst : g.Ready placed n → g.Ready (placed.insert id) n := fun hn =>
      hn.mono fun a ha => KeySet.mem_insert_iff.2 (Or.inr ha)
    have hlater : g.Ready (placed.insert id) n → g.Ready ((placed.insert id).insertMany wave) n :=
      fun hn => hn.mono fun a ha => KeySet.mem_insertMany.2 (Or.inl ha)
    rw [nextWave, List.mem_append, ih hwave hnew', ExtTreeSet.insertMany_cons,
      mem_released h (hnew id List.mem_cons_self)]
    constructor
    · intro hn
      rcases hn with ⟨hn, hnot⟩ | ⟨hn, hnot⟩
      · exact ⟨hlater hn, hnot⟩
      · exact ⟨hn, fun hp => hnot (hfirst hp)⟩
    · intro hn
      obtain ⟨hn, hnot⟩ := hn
      by_cases hready : g.Ready (placed.insert id) n
      · exact Or.inl ⟨hready, hnot⟩
      · exact Or.inr ⟨hn, hready⟩

/-- No node is released twice. -/
theorem nodup_nextWave (h : g.Indexed) {placed : KeySet κ} {wave : List κ} (hnodup : wave.Nodup)
    (hnew : ∀ id ∈ wave, id ∉ placed) : (g.nextWave placed wave).Nodup := by
  induction wave generalizing placed with
  | nil => exact List.nodup_nil
  | cons id wave ih =>
    have hwave : wave.Nodup := (List.nodup_cons.1 hnodup).2
    have hnew' : ∀ x ∈ wave, x ∉ placed.insert id := new_tail hnodup hnew
    refine List.nodup_append.2 ⟨nodup_released placed id, ih hwave hnew', ?_⟩
    intro a ha b hb heq
    subst heq
    have hready := ((mem_released h (hnew id List.mem_cons_self) a).1 ha).1
    exact ((mem_nextWave h hwave hnew' a).1 hb).2 hready

/-! ### Counting the predecessors that are not placed -/

/-- Every node is counted with the number of predecessors that it waits for. -/
def Counted (g : Digraph κ ν ε) (placed : KeySet κ) (pending : KeyMap κ Nat) : Prop :=
  ∀ id, pending[id]? = (g.vertices[id]?).map fun _ => (g.waiting placed id).length

theorem counted_inDegrees : g.Counted ∅ g.inDegrees := by
  intro id
  rw [inDegrees, ExtTreeMap.getElem?_map]
  cases hv : g.vertices[id]? with
  | none => rfl
  | some v =>
    have hall : g.waiting ∅ id = v.predecessors.toList := by
      rw [waiting, incoming_of_getElem? hv, List.filter_eq_self]
      intro a _
      rw [ExtTreeSet.contains_empty]
      rfl
    rw [Option.map_some, Option.map_some, hall, ExtTreeSet.length_toList]

/-- A successor of the node that is placed waits for one node less. -/
theorem length_waiting_insert (h : g.Indexed) {placed : KeySet κ} {id x : κ} (hid : id ∉ placed)
    (hedge : (id, x) ∈ g.edges) :
    (g.waiting (placed.insert id) x).length = (g.waiting placed x).length - 1 := by
  have hnot : id ∉ g.waiting (placed.insert id) x := fun hmem =>
    ((mem_waiting h).1 hmem).2 (KeySet.mem_insert_iff.2 (Or.inl rfl))
  have hperm : (g.waiting placed x).Perm (id :: g.waiting (placed.insert id) x) := by
    refine (List.perm_ext_iff_of_nodup (nodup_waiting placed x)
      (List.nodup_cons.2 ⟨hnot, nodup_waiting _ x⟩)).2 fun a => ?_
    rw [List.mem_cons, mem_waiting h, mem_waiting h, KeySet.mem_insert_iff, not_or]
    by_cases ha : a = id
    · subst ha
      exact iff_of_true ⟨hedge, hid⟩ (Or.inl rfl)
    · rw [or_iff_right ha, and_iff_right ha]
  rw [hperm.length_eq, List.length_cons, Nat.add_sub_cancel]

/-- Any other node waits for the same nodes. -/
theorem waiting_insert (h : g.Indexed) {placed : KeySet κ} {id x : κ}
    (hedge : (id, x) ∉ g.edges) : g.waiting (placed.insert id) x = g.waiting placed x := by
  refine List.filter_congr fun a ha => ?_
  rw [ExtTreeSet.mem_toList, h.mem_incoming] at ha
  have hne : compare id a ≠ .eq := fun e => hedge (LawfulEqOrd.eq_of_compare e ▸ ha)
  rw [ExtTreeSet.contains_insert, beq_eq_false_iff_ne.2 hne, Bool.false_or]

/-! ### Releasing -/

theorem getElem?_release_of_ne (p : Progress κ) {id x : κ} (hx : x ≠ id) :
    (release p id).pending[x]? = p.pending[x]? := by
  unfold release
  split
  · rfl
  · exact KeyMap.getElem?_insert_of_ne hx

omit [LawfulEqOrd κ] in
theorem getElem?_release_self (p : Progress κ) (id : κ) :
    (release p id).pending[id]? = (p.pending[id]?).map (· - 1) := by
  unfold release
  split
  next hp => rw [hp, Option.map_none]
  next count hp => rw [hp, ExtTreeMap.getElem?_insert_self, Option.map_some]

omit [LawfulEqOrd κ] in
theorem next_release (p : Progress κ) (id : κ) : (release p id).next =
    p.next ++ [id].filter fun b => (p.pending[b]?).any fun count => count - 1 == 0 := by
  unfold release
  split
  next hp => simp [hp]
  next count hp =>
    by_cases hc : count - 1 = 0 <;> simp [hp, hc]

theorem getElem?_foldl_release_of_notMem {l : List κ} (p : Progress κ) {x : κ} (hx : x ∉ l) :
    (l.foldl release p).pending[x]? = p.pending[x]? := by
  induction l generalizing p with
  | nil => rfl
  | cons b l ih =>
    rw [List.mem_cons, not_or] at hx
    rw [List.foldl_cons, ih _ hx.2, getElem?_release_of_ne p hx.1]

theorem getElem?_foldl_release_of_mem {l : List κ} (hl : l.Nodup) (p : Progress κ) {x : κ}
    (hx : x ∈ l) : (l.foldl release p).pending[x]? = (p.pending[x]?).map (· - 1) := by
  induction l generalizing p with
  | nil => exact absurd hx List.not_mem_nil
  | cons b l ih =>
    obtain ⟨hb, hl⟩ := List.nodup_cons.1 hl
    rw [List.foldl_cons]
    rcases List.mem_cons.1 hx with rfl | hx
    · rw [getElem?_foldl_release_of_notMem _ hb, getElem?_release_self]
    · have hne : x ≠ b := fun e => hb (e ▸ hx)
      rw [ih hl _ hx, getElem?_release_of_ne p hne]

theorem next_foldl_release {l : List κ} (hl : l.Nodup) (p : Progress κ) :
    (l.foldl release p).next =
      p.next ++ l.filter fun b => (p.pending[b]?).any fun count => count - 1 == 0 := by
  induction l generalizing p with
  | nil => exact (List.append_nil _).symm
  | cons b l ih =>
    obtain ⟨hb, hl⟩ := List.nodup_cons.1 hl
    have hrest : l.filter (fun x => ((release p b).pending[x]?).any fun count => count - 1 == 0) =
        l.filter fun x => (p.pending[x]?).any fun count => count - 1 == 0 := by
      refine List.filter_congr fun x hx => ?_
      have hne : x ≠ b := fun e => hb (e ▸ hx)
      rw [getElem?_release_of_ne p hne]
    rw [List.foldl_cons, ih hl, hrest, next_release, List.append_assoc, ← List.filter_append]
    rfl

/-- A node that is placed releases its successors, and the counts stay right. -/
theorem Counted.release (h : g.Indexed) {placed : KeySet κ} {p : Progress κ}
    (hp : g.Counted placed p.pending) {id : κ} (hid : id ∉ placed) :
    g.Counted (placed.insert id) ((g.outgoing id).toList.foldl Digraph.release p).pending ∧
      ((g.outgoing id).toList.foldl Digraph.release p).next = p.next ++ g.released placed id := by
  have hmem : ∀ x, x ∈ (g.outgoing id).toList ↔ (id, x) ∈ g.edges := by
    intro x
    rw [ExtTreeSet.mem_toList, h.mem_outgoing]
  constructor
  · intro x
    by_cases hedge : (id, x) ∈ g.edges
    · rw [getElem?_foldl_release_of_mem (KeySet.nodup_toList _) p ((hmem x).2 hedge), hp x,
        Option.map_map, length_waiting_insert h hid hedge]
      rfl
    · rw [getElem?_foldl_release_of_notMem p fun hx => hedge ((hmem x).1 hx), hp x,
        waiting_insert h hedge]
  · rw [next_foldl_release (KeySet.nodup_toList _), released]
    congr 1
    refine List.filter_congr fun x hx => ?_
    have hedge : (id, x) ∈ g.edges := (hmem x).1 hx
    obtain ⟨v, hv⟩ := exists_getElem? (h.ends_mem id x hedge).2
    rw [hp x, hv, Option.map_some, Option.any_some, ← length_waiting_insert h hid hedge,
      Bool.eq_iff_iff, beq_iff_eq, List.isEmpty_iff, List.length_eq_zero_iff]

/-- Placing a wave of nodes never fails. -/
theorem place_eq_ok (h : g.Indexed) {placed : KeySet κ} {p : Progress κ}
    (hp : g.Counted placed p.pending) {wave : List κ} (hnodup : wave.Nodup)
    (hnew : ∀ id ∈ wave, id ∉ placed) (hmem : ∀ id ∈ wave, id ∈ g.vertices) :
    ∃ p', g.place wave p = .ok p' ∧ g.Counted (placed.insertMany wave) p'.pending ∧
      p'.next = p.next ++ g.nextWave placed wave := by
  induction wave generalizing placed p with
  | nil => exact ⟨p, rfl, hp, (List.append_nil _).symm⟩
  | cons id wave ih =>
    have hwave : wave.Nodup := (List.nodup_cons.1 hnodup).2
    obtain ⟨v, hv⟩ := exists_getElem? (hmem id List.mem_cons_self)
    obtain ⟨hcount, hnext⟩ := hp.release h (hnew id List.mem_cons_self)
    have hnew' : ∀ x ∈ wave, x ∉ placed.insert id := new_tail hnodup hnew
    obtain ⟨p', hplace, hcount', hnext'⟩ :=
      ih hcount hwave hnew' fun x hx => hmem x (List.mem_cons_of_mem id hx)
    refine ⟨p', ?_, ?_, ?_⟩
    · rw [place, successors, vertex, hv, ← hplace, outgoing_of_getElem? hv]
      rfl
    · rw [ExtTreeSet.insertMany_cons]
      exact hcount'
    · rw [hnext', hnext, nextWave, List.append_assoc]

/-! ### Waves that are due -/

/-- A wave holds, once, every node that is ready and not placed, and only nodes that were ready are
placed. -/
structure Due (g : Digraph κ ν ε) (placed : KeySet κ) (wave : List κ) : Prop where
  nodup : wave.Nodup
  mem_wave (id : κ) : id ∈ wave ↔ g.Ready placed id ∧ id ∉ placed
  ready_of_mem (id : κ) : id ∈ placed → g.Ready placed id

omit [Ord κ] [TransOrd κ] [LawfulEqOrd κ] in
theorem tieSort_perm (tie : κ → κ → Ordering) (ids : List κ) : (tieSort tie ids).Perm ids :=
  List.mergeSort_perm ids _

/-- The sources are the wave that is due first. -/
theorem due_sources (h : g.Indexed) (tie : κ → κ → Ordering) :
    g.Due ∅ (tieSort tie g.sources.toList) := by
  refine ⟨(tieSort_perm tie _).nodup_iff.2 (KeySet.nodup_toList _), fun id => ?_, fun id hid => ?_⟩
  · rw [(tieSort_perm tie _).mem_iff, ExtTreeSet.mem_toList, h.mem_sources,
      and_iff_left ExtTreeSet.not_mem_empty]
    refine and_congr_right fun _ => forall_congr' fun a => ?_
    exact (imp_iff_not ExtTreeSet.not_mem_empty).symm
  · exact absurd hid ExtTreeSet.not_mem_empty

/-- The nodes that a wave releases are the wave that is due after it. -/
theorem Due.next (h : g.Indexed) (tie : κ → κ → Ordering) {placed : KeySet κ} {wave : List κ}
    (hd : g.Due placed wave) :
    g.Due (placed.insertMany wave) (tieSort tie (g.nextWave placed wave)) := by
  have hnew : ∀ id ∈ wave, id ∉ placed := fun id hid => ((hd.mem_wave id).1 hid).2
  have hmono : ∀ id, g.Ready placed id → g.Ready (placed.insertMany wave) id := fun id hid =>
    hid.mono fun a ha => KeySet.mem_insertMany.2 (Or.inl ha)
  have hperm := tieSort_perm tie (g.nextWave placed wave)
  refine ⟨hperm.nodup_iff.2 (nodup_nextWave h hd.nodup hnew), fun id => ?_, fun id hid => ?_⟩
  · rw [hperm.mem_iff, mem_nextWave h hd.nodup hnew, KeySet.mem_insertMany]
    refine and_congr_right fun _ => not_congr ?_
    -- a node is ready exactly when it is placed or due
    constructor
    · intro hready
      by_cases hid : id ∈ placed
      · exact Or.inl hid
      · exact Or.inr ((hd.mem_wave id).2 ⟨hready, hid⟩)
    · intro hid
      rcases hid with hid | hid
      · exact hd.ready_of_mem id hid
      · exact ((hd.mem_wave id).1 hid).1
  · rcases KeySet.mem_insertMany.1 hid with hid | hid
    · exact hmono id (hd.ready_of_mem id hid)
    · exact hmono id ((hd.mem_wave id).1 hid).1

/-! ### All waves -/

/-- How the loop over the waves ends, without a bound on their number. -/
inductive Ends (g : Digraph κ ν ε) (tie : κ → κ → Ordering) :
    KeyMap κ Nat → List κ → Except (Error κ) (List (List κ)) → Prop
  | done (pending : KeyMap κ Nat) : Ends g tie pending [] (.ok [])
  | failed {pending : KeyMap κ Nat} {wave : List κ} {e : Error κ} (hwave : wave ≠ [])
      (hplace : g.place wave ⟨pending, []⟩ = .error e) : Ends g tie pending wave (.error e)
  | wave {pending : KeyMap κ Nat} {wave : List κ} {p : Progress κ}
      {r : Except (Error κ) (List (List κ))} (hwave : wave ≠ [])
      (hplace : g.place wave ⟨pending, []⟩ = .ok p)
      (hrest : Ends g tie p.pending (tieSort tie p.next) r) :
      Ends g tie pending wave (r.map (wave :: ·))

/-- The nodes are placed in an order, one ready node after the other, until no other node is
ready. -/
inductive Places (g : Digraph κ ν ε) : KeySet κ → List κ → Prop
  | stop {placed : KeySet κ} (hall : ∀ id, g.Ready placed id → id ∈ placed) : Places g placed []
  | place {placed : KeySet κ} {id : κ} {order : List κ} (hready : g.Ready placed id)
      (hnew : id ∉ placed) (hrest : Places g (placed.insert id) order) :
      Places g placed (id :: order)

/-- The nodes that are not placed. -/
def unplaced (g : Digraph κ ν ε) (placed : KeySet κ) : List κ :=
  g.vertices.keys.filter fun id => !placed.contains id

theorem mem_unplaced {placed : KeySet κ} {id : κ} :
    id ∈ g.unplaced placed ↔ id ∈ g.vertices ∧ id ∉ placed := by
  rw [unplaced, List.mem_filter, ExtTreeMap.mem_keys, Bool.not_eq_true', ← Bool.not_eq_true]
  rfl

omit [LawfulEqOrd κ] in
theorem nodup_unplaced (placed : KeySet κ) : (g.unplaced placed).Nodup :=
  (KeyMap.nodup_keys _).filter _

/-- Placing nodes takes them off those that are not placed. -/
theorem length_unplaced_insertMany {placed : KeySet κ} {l : List κ} (hnodup : l.Nodup)
    (hnew : ∀ id ∈ l, id ∉ placed) (hmem : ∀ id ∈ l, id ∈ g.vertices) :
    l.length + (g.unplaced (placed.insertMany l)).length = (g.unplaced placed).length := by
  have hdisjoint : ∀ a ∈ l, ∀ b ∈ g.unplaced (placed.insertMany l), a ≠ b := by
    intro a ha b hb heq
    subst heq
    exact (mem_unplaced.1 hb).2 (KeySet.mem_insertMany.2 (Or.inr ha))
  have hperm : (l ++ g.unplaced (placed.insertMany l)).Perm (g.unplaced placed) := by
    refine (List.perm_ext_iff_of_nodup (List.nodup_append.2 ⟨hnodup, nodup_unplaced _, hdisjoint⟩)
      (nodup_unplaced placed)).2 fun id => ?_
    rw [List.mem_append, mem_unplaced, mem_unplaced, KeySet.mem_insertMany, not_or]
    constructor
    · intro hid
      rcases hid with hid | ⟨hvertex, hid, -⟩
      · exact ⟨hmem id hid, hnew id hid⟩
      · exact ⟨hvertex, hid⟩
    · intro hid
      obtain ⟨hvertex, hid⟩ := hid
      by_cases hl : id ∈ l
      · exact Or.inl hl
      · exact Or.inr ⟨hvertex, hid, hl⟩
  rw [← hperm.length_eq, List.length_append]

/-- A wave whose nodes are ready can be placed node by node. -/
theorem Places.append {placed : KeySet κ} {wave order : List κ} (hnodup : wave.Nodup)
    (hready : ∀ id ∈ wave, g.Ready placed id) (hnew : ∀ id ∈ wave, id ∉ placed)
    (hrest : g.Places (placed.insertMany wave) order) : g.Places placed (wave ++ order) := by
  induction wave generalizing placed with
  | nil =>
    rw [ExtTreeSet.insertMany_nil] at hrest
    exact hrest
  | cons id wave ih =>
    rw [ExtTreeSet.insertMany_cons] at hrest
    refine .place (hready id List.mem_cons_self) (hnew id List.mem_cons_self) ?_
    refine ih (List.nodup_cons.1 hnodup).2 (fun x hx => ?_) (new_tail hnodup hnew) hrest
    exact (hready x (List.mem_cons_of_mem id hx)).mono fun a ha =>
      KeySet.mem_insert_iff.2 (Or.inr ha)

/-- As many waves as there are nodes to be placed are enough. -/
theorem wavesFrom_places (h : g.Indexed) (tie : κ → κ → Ordering) {count : Nat}
    {placed : KeySet κ} {pending : KeyMap κ Nat} {wave : List κ} (hd : g.Due placed wave)
    (hp : g.Counted placed pending) (hcount : (g.unplaced placed).length ≤ count) :
    ∃ waves, g.wavesFrom tie count pending wave = .ok waves ∧
      g.Ends tie pending wave (.ok waves) ∧ g.Places placed waves.flatten := by
  have hnew : ∀ id ∈ wave, id ∉ placed := fun id hid => ((hd.mem_wave id).1 hid).2
  have hready : ∀ id ∈ wave, g.Ready placed id := fun id hid => ((hd.mem_wave id).1 hid).1
  have hmem : ∀ id ∈ wave, id ∈ g.vertices := fun id hid => (hready id hid).1
  have hless := length_unplaced_insertMany hd.nodup hnew hmem
  induction count generalizing placed pending wave with
  | zero =>
    obtain rfl : wave = [] := by
      rw [← List.length_eq_zero_iff]
      omega
    refine ⟨[], rfl, .done pending, .stop fun id hid => ?_⟩
    by_contra hnot
    exact List.not_mem_nil ((hd.mem_wave id).2 ⟨hid, hnot⟩)
  | succ count ih =>
    cases wave with
    | nil =>
      refine ⟨[], rfl, .done pending, .stop fun id hid => ?_⟩
      by_contra hnot
      exact List.not_mem_nil ((hd.mem_wave id).2 ⟨hid, hnot⟩)
    | cons id wave =>
      obtain ⟨p, hplace, hp', hnext⟩ := place_eq_ok h (p := ⟨pending, []⟩) hp hd.nodup hnew hmem
      rw [List.nil_append] at hnext
      have hd' := hd.next h tie
      rw [← hnext] at hd'
      rw [List.length_cons] at hless
      have hnew' := fun x hx => ((hd'.mem_wave x).1 hx).2
      have hmem' := fun x hx => ((hd'.mem_wave x).1 hx).1.1
      obtain ⟨waves, hwaves, hends, hplaces⟩ := ih hd' hp' (by omega) hnew'
        (fun x hx => ((hd'.mem_wave x).1 hx).1) hmem'
        (length_unplaced_insertMany hd'.nodup hnew' hmem')
      refine ⟨(id :: wave) :: waves, ?_, .wave (List.cons_ne_nil id wave) hplace hends,
        .append hd.nodup hready hnew hplaces⟩
      rw [wavesFrom, hplace]
      simp only [hwaves]

/-- The waves end without a bound on their number, and place ready nodes until none is left. -/
theorem waves_places (h : g.Indexed) (tie : κ → κ → Ordering) :
    ∃ waves, g.waves tie = .ok waves ∧
      g.Ends tie g.inDegrees (tieSort tie g.sources.toList) (.ok waves) ∧
      g.Places ∅ waves.flatten := by
  refine wavesFrom_places h tie (due_sources h tie) counted_inDegrees ?_
  rw [Digraph.size, ← ExtTreeMap.length_keys]
  exact List.length_filter_le _ _

end Requisite.Digraph
