import Mathlib.Data.List.Permutation
import Requisite.Proofs.Digraph.Build
import Requisite.Proofs.Digraph.Depth

/-!
# The order of the waves

Nodes are sorted by depth, and those of one depth by the tie-break.  Where it does not tell two
nodes apart, the one comes first that became ready first: of two sources the one with the smaller
key, and of other nodes the one whose last predecessor was placed first, and with the same last
predecessor again the one with the smaller key.

* **`Digraph.pairwise_tieSort`** — sorting by the tie-break keeps the order of what it does not tell
  apart;
* **`Digraph.pairwise_nextWave`** — a wave releases nodes in the order in which they become ready;
* **`Digraph.WaveOrder.unique`** — a graph has one order of this kind at most;
* **`Digraph.sort_eq_ok_iff_waveOrder`** — it is the one that sorting gives.
-/

namespace Requisite.Digraph

open Std

variable {κ ν ε : Type} [Ord κ] [TransOrd κ] {g : Digraph κ ν ε} {tie : κ → κ → Ordering}
  {order : List κ}

/-! ### What comes first -/

/-- Of the predecessors of a node, `p` is the last one in an order. -/
def LastPlaced (g : Digraph κ ν ε) (order : List κ) (id p : κ) : Prop :=
  g.Edge p id ∧ ∀ q, g.Edge q id → q = p ∨ [q, p].Sublist order

/-- A node becomes ready before another one of the same depth. -/
inductive Sooner (g : Digraph κ ν ε) (order : List κ) (a b : κ) : Prop
  | source (ha : g.Depth a 0) (hb : g.Depth b 0) (hkey : compare a b = .lt)
  | released {p q : κ} (hp : g.LastPlaced order a p) (hq : g.LastPlaced order b q)
      (hpq : [p, q].Sublist order)
  | together {p : κ} (hp : g.LastPlaced order a p) (hq : g.LastPlaced order b p)
      (hkey : compare a b = .lt)

/-- A node comes first by the tie-break, or where that does not tell, because it becomes ready
before the other one. -/
def TieBefore (g : Digraph κ ν ε) (tie : κ → κ → Ordering) (order : List κ) (a b : κ) : Prop :=
  tie a b = .lt ∨ tie a b = .eq ∧ g.Sooner order a b

/-- A node comes before another one: its depth is smaller, or the same and the tie is broken in its
favour. -/
def Precedes (g : Digraph κ ν ε) (tie : κ → κ → Ordering) (order : List κ) (a b : κ) : Prop :=
  ∃ m n, g.Depth a m ∧ g.Depth b n ∧ (m < n ∨ m = n ∧ g.TieBefore tie order a b)

/-- An order has every node once, by depth, tie-break and the time at which nodes become ready. -/
structure WaveOrder (g : Digraph κ ν ε) (tie : κ → κ → Ordering) (order : List κ) : Prop where
  nodup : order.Nodup
  mem_iff (id : κ) : id ∈ order ↔ id ∈ g.vertices
  pairwise : order.Pairwise (g.Precedes tie order)

/-! ### Pairs in a list -/

/-- Of two members of a list one comes before the other. -/
theorem pair_sublist_or {α : Type} {l : List α} {a b : α} (ha : a ∈ l) (hb : b ∈ l) (hab : a ≠ b) :
    [a, b].Sublist l ∨ [b, a].Sublist l := by
  induction l with
  | nil => exact absurd ha List.not_mem_nil
  | cons x l ih =>
    rcases List.mem_cons.1 ha with rfl | hal
    · have hbl : b ∈ l := (List.mem_cons.1 hb).resolve_left (Ne.symm hab)
      exact Or.inl ((List.singleton_sublist.2 hbl).cons_cons a)
    · rcases List.mem_cons.1 hb with rfl | hbl
      · exact Or.inr ((List.singleton_sublist.2 hal).cons_cons b)
      · exact (ih hal hbl).imp (List.Sublist.cons x) (List.Sublist.cons x)

/-- In a list without repetition no two members come before each other. -/
theorem not_pair_sublist {α : Type} {l : List α} (hl : l.Nodup) {a b : α} (hab : [a, b].Sublist l) :
    ¬[b, a].Sublist l := by
  intro hba
  induction l with
  | nil => nomatch hab
  | cons x l ih =>
    obtain ⟨hx, hl⟩ := List.nodup_cons.1 hl
    cases hab with
    | cons _ hab =>
      cases hba with
      | cons _ hba => exact ih hl hab hba
      | cons_cons _ hba => exact hx (hab.subset (List.mem_cons_of_mem _ List.mem_cons_self))
    | cons_cons _ hab =>
      cases hba with
      | cons _ hba => exact hx (hba.subset (List.mem_cons_of_mem _ List.mem_cons_self))
      | cons_cons _ hba => exact hx (List.singleton_sublist.1 hab)

section Ordered

variable {α : Type} {l l' : List α} {r : α → α → Prop}

/-- In an ordered list a member comes before another one if that does not precede it. -/
theorem pair_sublist_of_pairwise (h : l.Pairwise r) {a b : α} (ha : a ∈ l) (hb : b ∈ l)
    (hab : a ≠ b) (hnot : ¬r b a) : [a, b].Sublist l :=
  (pair_sublist_or ha hb hab).resolve_right fun hba =>
    hnot (List.pairwise_iff_forall_sublist.1 h hba)

/-- Lists of the same members are equal if both are ordered by a relation that does not hold both
ways. -/
theorem eq_of_pairwise (hl : l.Nodup) (hl' : l'.Nodup) (hmem : ∀ x, x ∈ l ↔ x ∈ l')
    (hasymm : ∀ a b, r a b → ¬r b a) (h : l.Pairwise r) (h' : l'.Pairwise r) : l = l' := by
  have hperm : l.Perm l' := (List.perm_ext_iff_of_nodup hl hl').2 hmem
  exact hperm.eq_of_pairwise (fun a b _ _ hab hba => absurd hba (hasymm a b hab)) h h'

end Ordered

/-! ### Sorting by the tie-break -/

omit [Ord κ] [TransOrd κ] in
/-- Sorting keeps the order of the nodes that the tie-break does not tell apart. -/
theorem pairwise_tieSort [TransCmp tie] {l : List κ} (hl : l.Nodup) {r : κ → κ → Prop}
    (h : l.Pairwise r) :
    (tieSort tie l).Pairwise fun a b => tie a b = .lt ∨ tie a b = .eq ∧ r a b := by
  have htrans : ∀ a b c, (tie a b).isLE = true → (tie b c).isLE = true → (tie a c).isLE = true :=
    fun _ _ _ => TransCmp.isLE_trans
  have htotal : ∀ a b, ((tie a b).isLE || (tie b a).isLE) = true := by
    intro a b
    rw [show tie b a = (tie a b).swap from OrientedCmp.eq_swap]
    cases tie a b <;> rfl
  have hperm : (tieSort tie l).Perm l := tieSort_perm tie l
  have hsorted : (tieSort tie l).Pairwise fun a b => (tie a b).isLE = true :=
    List.pairwise_mergeSort htrans htotal l
  rw [List.pairwise_iff_forall_sublist] at h hsorted ⊢
  intro a b hab
  have hle := hsorted hab
  cases htie : tie a b with
  | lt => exact Or.inl rfl
  | gt =>
    rw [htie] at hle
    nomatch hle
  | eq =>
    refine Or.inr ⟨rfl, ?_⟩
    have hnodup : (tieSort tie l).Nodup := hperm.nodup_iff.2 hl
    have hne : a ≠ b := by
      intro heq
      subst heq
      exact not_pair_sublist hnodup hab hab
    have ha : a ∈ l := hperm.mem_iff.1 (hab.subset List.mem_cons_self)
    have hb : b ∈ l := hperm.mem_iff.1 (hab.subset (List.mem_cons_of_mem a List.mem_cons_self))
    rcases pair_sublist_or ha hb hne with hbefore | hafter
    · exact h hbefore
    · -- equal nodes stay as they were, so the other way round they would have stayed too
      have hswap : (tie b a).isLE = true := by
        rw [OrientedCmp.eq_symm htie]
        rfl
      have hkept : [b, a].Sublist (tieSort tie l) :=
        List.pair_sublist_mergeSort htrans htotal hswap hafter
      exact absurd hkept (not_pair_sublist hnodup hab)

/-! ### There is one such order only -/

theorem LastPlaced.unique (hl : order.Nodup) {id p q : κ} (hp : g.LastPlaced order id p)
    (hq : g.LastPlaced order id q) : p = q := by
  rcases hq.2 p hp.1 with heq | hpq
  · exact heq
  · rcases hp.2 q hq.1 with heq | hqp
    · exact heq.symm
    · exact absurd hqp (not_pair_sublist hl hpq)

theorem Sooner.asymm (hl : order.Nodup) {a b : κ} (hab : g.Sooner order a b) :
    ¬g.Sooner order b a := by
  intro hba
  cases hab with
  | source ha hb hkey =>
    cases hba with
    | source _ _ hkey' => exact OrientedCmp.not_lt_of_lt hkey hkey'
    | released hp | together hp => exact hb.not_step hp.1
  | released hp hq hpq =>
    cases hba with
    | source _ ha => exact ha.not_step hp.1
    | released hq' hp' hqp =>
      obtain rfl := hp.unique hl hp'
      obtain rfl := hq.unique hl hq'
      exact not_pair_sublist hl hpq hqp
    | together hq' hp' =>
      obtain rfl := hp.unique hl hp'
      obtain rfl := hq.unique hl hq'
      exact not_pair_sublist hl hpq hpq
  | together hp hq hkey =>
    cases hba with
    | source _ ha => exact ha.not_step hp.1
    | released hq' hp' hqp =>
      obtain rfl := hp.unique hl hp'
      obtain rfl := hq.unique hl hq'
      exact not_pair_sublist hl hqp hqp
    | together _ _ hkey' => exact OrientedCmp.not_lt_of_lt hkey hkey'

theorem TieBefore.asymm [TransCmp tie] (hl : order.Nodup) {a b : κ}
    (hab : g.TieBefore tie order a b) : ¬g.TieBefore tie order b a := by
  intro hba
  unfold TieBefore at hba
  rcases hab with hlt | ⟨heq, hsooner⟩
  · rw [OrientedCmp.gt_of_lt hlt] at hba
    rcases hba with h | h
    · nomatch h
    · nomatch h.1
  · rw [OrientedCmp.eq_symm heq] at hba
    rcases hba with h | h
    · nomatch h
    · exact hsooner.asymm hl h.2

theorem Precedes.asymm [TransCmp tie] (hl : order.Nodup) {a b : κ}
    (hab : g.Precedes tie order a b) : ¬g.Precedes tie order b a := by
  intro hba
  obtain ⟨m, n, ha, hb, hmn⟩ := hab
  obtain ⟨n', m', hb', ha', hnm⟩ := hba
  obtain rfl := ha.unique ha'
  obtain rfl := hb.unique hb'
  rcases hmn with hlt | ⟨rfl, htie⟩
  · omega
  · exact htie.asymm hl (hnm.resolve_left (Nat.lt_irrefl m)).2

/-- What comes before what in an order of this kind is said by depth, tie-break and readiness. -/
theorem WaveOrder.sublist_iff [TransCmp tie] (h : g.WaveOrder tie order) {a b : κ}
    (ha : a ∈ g.vertices) (hb : b ∈ g.vertices) :
    [a, b].Sublist order ↔ g.Precedes tie order a b := by
  constructor
  · intro hab
    exact List.pairwise_iff_forall_sublist.1 h.pairwise hab
  · intro hab
    have hne : a ≠ b := by
      intro heq
      subst heq
      exact hab.asymm h.nodup hab
    exact pair_sublist_of_pairwise h.pairwise ((h.mem_iff a).2 ha) ((h.mem_iff b).2 hb) hne
      (hab.asymm h.nodup)

theorem LastPlaced.imp {order' : List κ} {id p : κ} (h : g.LastPlaced order id p)
    (hsub : ∀ q, [q, p].Sublist order → [q, p].Sublist order') : g.LastPlaced order' id p :=
  ⟨h.1, fun q hq => (h.2 q hq).imp_right (hsub q)⟩

/-- Which of two nodes becomes ready first depends on what comes before their predecessors. -/
theorem Sooner.imp {order' : List κ} {a b : κ} (h : g.Sooner order a b)
    (hsub : ∀ p q, g.Edge q a ∨ g.Edge q b → [p, q].Sublist order → [p, q].Sublist order') :
    g.Sooner order' a b := by
  cases h with
  | source ha hb hkey => exact .source ha hb hkey
  | released hp hq hpq =>
    exact .released (hp.imp fun r => hsub r _ (Or.inl hp.1)) (hq.imp fun r => hsub r _ (Or.inr hq.1))
      (hsub _ _ (Or.inr hq.1) hpq)
  | together hp hq hkey =>
    exact .together (hp.imp fun r => hsub r _ (Or.inl hp.1)) (hq.imp fun r => hsub r _ (Or.inr hq.1))
      hkey

/-- What comes before a node comes before it in any other order of this kind. -/
theorem WaveOrder.sublist_of_sublist [TransCmp tie] {order' : List κ}
    (h : g.WaveOrder tie order) (h' : g.WaveOrder tie order') {n : Nat} {a b : κ}
    (hb : g.Depth b n) (hab : [a, b].Sublist order) : [a, b].Sublist order' := by
  -- by induction on the depth: ties are broken by the order of the predecessors, which are above
  induction n using Nat.strong_induction_on generalizing a b with
  | _ n ih =>
    have hmem : ∀ {x y : κ}, [x, y].Sublist order → x ∈ g.vertices ∧ y ∈ g.vertices := fun hxy =>
      ⟨(h.mem_iff _).1 (hxy.subset List.mem_cons_self),
        (h.mem_iff _).1 (hxy.subset (List.mem_cons_of_mem _ List.mem_cons_self))⟩
    obtain ⟨m, n', ha, hb', hmn⟩ := (h.sublist_iff (hmem hab).1 (hmem hab).2).1 hab
    obtain rfl := hb'.unique hb
    refine (h'.sublist_iff (hmem hab).1 (hmem hab).2).2 ⟨m, n', ha, hb, hmn.imp_right ?_⟩
    intro hmn
    obtain ⟨rfl, htie⟩ := hmn
    refine ⟨rfl, htie.imp_right (And.imp_right fun hsooner => hsooner.imp fun p q hq hpq => ?_)⟩
    obtain ⟨-, k, -, hk, -⟩ := (h.sublist_iff (hmem hpq).1 (hmem hpq).2).1 hpq
    exact ih k (hq.elim (hk.lt ha) (hk.lt hb)) hk hpq

/-- A graph has one order of this kind at most. -/
theorem WaveOrder.unique [TransCmp tie] {order' : List κ}
    (h : g.WaveOrder tie order) (h' : g.WaveOrder tie order') : order = order' := by
  have hpairwise : order.Pairwise (g.Precedes tie order') := by
    rw [List.pairwise_iff_forall_sublist]
    intro a b hab
    obtain ⟨-, n, -, hb, -⟩ := List.pairwise_iff_forall_sublist.1 h.pairwise hab
    exact List.pairwise_iff_forall_sublist.1 h'.pairwise (h.sublist_of_sublist h' hb hab)
  exact eq_of_pairwise h.nodup h'.nodup (fun id => (h.mem_iff id).trans (h'.mem_iff id).symm)
    (fun _ _ hab => hab.asymm h'.nodup) hpairwise h'.pairwise

/-! ### Becoming ready -/

theorem LastPlaced.append {id p : κ} (h : g.LastPlaced order id p) (more : List κ) :
    g.LastPlaced (order ++ more) id p :=
  ⟨h.1, fun q hq => (h.2 q hq).imp_right fun hqp => hqp.trans (List.sublist_append_left _ _)⟩

theorem Sooner.append {a b : κ} (h : g.Sooner order a b) (more : List κ) :
    g.Sooner (order ++ more) a b := by
  cases h with
  | source ha hb hkey => exact .source ha hb hkey
  | released hp hq hpq =>
    exact .released (hp.append more) (hq.append more) (hpq.trans (List.sublist_append_left _ _))
  | together hp hq hkey => exact .together (hp.append more) (hq.append more) hkey

theorem TieBefore.append {a b : κ} (h : g.TieBefore tie order a b) (more : List κ) :
    g.TieBefore tie (order ++ more) a b :=
  h.imp_right fun h => ⟨h.1, h.2.append more⟩

variable [LawfulEqOrd κ]

/-- A node that is released with `id` has all its other predecessors before `id`. -/
theorem lastPlaced_of_released (h : g.Indexed) {placed : KeySet κ} {before wave : List κ} {id : κ}
    (hplaced : ∀ x, x ∈ placed ↔ x ∈ before) (hid : id ∉ placed) {n : κ}
    (hn : n ∈ g.released placed id) : g.LastPlaced (before ++ id :: wave) n id := by
  have hready := ((mem_released h hid n).1 hn).1
  have hedge : g.Edge id n := by
    rw [released, List.mem_filter, ExtTreeSet.mem_toList, h.mem_outgoing] at hn
    exact hn.1
  refine ⟨hedge, fun q hq => ?_⟩
  rcases KeySet.mem_insert_iff.1 (hready.2 q hq) with heq | hq
  · exact Or.inl heq
  · refine Or.inr ?_
    exact (List.singleton_sublist.2 ((hplaced q).1 hq)).append
      (List.singleton_sublist.2 List.mem_cons_self)

/-- While a wave is placed, nodes are released in the order in which they become ready. -/
theorem pairwise_nextWave (h : g.Indexed) {placed : KeySet κ} {before wave : List κ}
    (hplaced : ∀ x, x ∈ placed ↔ x ∈ before) (hnodup : wave.Nodup)
    (hnew : ∀ id ∈ wave, id ∉ placed) :
    (g.nextWave placed wave).Pairwise (g.Sooner (before ++ wave)) ∧
      ∀ n ∈ g.nextWave placed wave, ∃ p ∈ wave, g.LastPlaced (before ++ wave) n p := by
  induction wave generalizing placed before with
  | nil => exact ⟨.nil, fun _ hn => absurd hn List.not_mem_nil⟩
  | cons id wave ih =>
    have hplaced' : ∀ x, x ∈ placed.insert id ↔ x ∈ before ++ [id] := by
      intro x
      rw [KeySet.mem_insert_iff, hplaced, List.mem_append, List.mem_singleton, or_comm]
    obtain ⟨hpairwise, hlast⟩ :=
      ih hplaced' (List.nodup_cons.1 hnodup).2 (new_tail hnodup hnew)
    rw [List.append_assoc, List.singleton_append] at hpairwise hlast
    have hfirst : ∀ n ∈ g.released placed id, g.LastPlaced (before ++ id :: wave) n id :=
      fun n hn => lastPlaced_of_released h hplaced (hnew id List.mem_cons_self) hn
    have hsorted : (g.released placed id).Pairwise fun a b => compare a b = .lt :=
      ExtTreeSet.ordered_toList.filter _
    rw [nextWave]
    refine ⟨List.pairwise_append.2 ⟨?_, hpairwise, ?_⟩, fun n hn => ?_⟩
    · exact hsorted.imp_of_mem fun ha hb hkey => .together (hfirst _ ha) (hfirst _ hb) hkey
    · intro a ha b hb
      obtain ⟨p, hp, hbp⟩ := hlast b hb
      refine .released (hfirst a ha) hbp ?_
      exact ((List.singleton_sublist.2 hp).cons_cons id).trans (List.sublist_append_right _ _)
    · rcases List.mem_append.1 hn with hn | hn
      · exact ⟨id, List.mem_cons_self, hfirst n hn⟩
      · obtain ⟨p, hp, hnp⟩ := hlast n hn
        exact ⟨p, List.mem_cons_of_mem id hp, hnp⟩

/-- The sources become ready in the order of their keys. -/
theorem pairwise_sources (h : g.Indexed) : g.sources.toList.Pairwise (g.Sooner []) := by
  have hdepth : ∀ id ∈ g.sources.toList, g.Depth id 0 := by
    intro id hid
    rw [ExtTreeSet.mem_toList, h.mem_sources] at hid
    rw [Depth, longestChain_iff, chainsBelow_succ]
    exact ⟨fun a ha => absurd ha (hid.2 a), not_chainsBelow_zero⟩
  exact ExtTreeSet.ordered_toList.imp_of_mem fun ha hb hkey =>
    .source (hdepth _ ha) (hdepth _ hb) hkey

/-! ### The order of all waves -/

/-- What is placed by a wave and by those after it comes in order. -/
theorem Rounds.pairwise [TransCmp tie] (h : g.Indexed) {k : Nat} {placed : KeySet κ}
    {before wave : List κ} {waves : List (List κ)} (hrounds : g.Rounds tie placed wave waves)
    (hk : g.AtDepth k placed wave) (hplaced : ∀ x, x ∈ placed ↔ x ∈ before)
    (hwave : wave.Pairwise (g.TieBefore tie before)) :
    waves.flatten.Pairwise (g.Precedes tie (before ++ waves.flatten)) := by
  induction hrounds generalizing k before with
  | done => exact .nil
  | @round placed wave waves hrest ih =>
    have hnew : ∀ id ∈ wave, id ∉ placed := fun id hid => ((hk.due.mem_wave id).1 hid).2
    have hdepth : ∀ id ∈ wave, g.Depth id k := fun id hid => ((hk.mem_wave_iff h id).1 hid).2
    have hplaced' : ∀ x, x ∈ placed.insertMany wave ↔ x ∈ before ++ wave := by
      intro x
      rw [KeySet.mem_insertMany, hplaced, List.mem_append]
    have hnext : (tieSort tie (g.nextWave placed wave)).Pairwise
        (g.TieBefore tie (before ++ wave)) :=
      pairwise_tieSort (nodup_nextWave h hk.due.nodup hnew)
        (pairwise_nextWave h hplaced hk.due.nodup hnew).1
    have hlater := ih (hk.next h tie) hplaced' hnext
    rw [List.append_assoc] at hlater
    rw [List.flatten_cons]
    refine List.pairwise_append.2 ⟨?_, hlater, fun a ha b hb => ?_⟩
    · refine hwave.imp_of_mem fun ha hb hab => ?_
      exact ⟨k, k, hdepth _ ha, hdepth _ hb, Or.inr ⟨rfl, hab.append _⟩⟩
    · obtain ⟨n, hn, hb⟩ := hrest.depth h (hk.next h tie) b hb
      exact ⟨k, n, hdepth a ha, hb, Or.inl hn⟩

/-- A graph without a cycle is sorted into an order of this kind. -/
theorem Indexed.exists_waveOrder (h : g.Indexed) (tie : κ → κ → Ordering) [TransCmp tie]
    (hacyclic : g.Acyclic) :
    ∃ order, g.sort tie = .ok order ∧ g.WaveOrder tie order := by
  obtain ⟨waves, hwaves, hrounds, hplaces⟩ := waves_rounds h tie
  have hsort : g.sort tie = .ok waves.flatten :=
    ((sort_of_places hwaves hplaces h).resolve_right fun hcyclic => hcyclic.1 hacyclic).2
  refine ⟨waves.flatten, hsort, hplaces.nodup, fun id => ?_, ?_⟩
  · exact (hplaces.mem_iff h).trans (and_iff_left (acyclic_iff_not_belowCycle.1 hacyclic id))
  · have hnone : ∀ x, x ∈ (∅ : KeySet κ) ↔ x ∈ ([] : List κ) := fun x =>
      iff_of_false ExtTreeSet.not_mem_empty List.not_mem_nil
    exact hrounds.pairwise h (atDepth_sources h tie) hnone
      (pairwise_tieSort (KeySet.nodup_toList _) (pairwise_sources h))

/-! ### What sorting gives -/

/-- Without a cycle every node has a depth, and sorting by a tie-break that is an order gives the
nodes by depth, by tie-break, and by the time at which they become ready: this order and no other
one. -/
theorem sort_eq_ok_iff_waveOrder (cs : List (Change κ ν ε)) (tie : κ → κ → Ordering) [TransCmp tie]
    (hacyclic : (after cs).Acyclic) :
    (∀ id ∈ (after cs).vertices, ∃ n, (after cs).Depth id n) ∧
      (∃ order, (after cs).sort tie = .ok order) ∧
      ∀ order, (after cs).sort tie = .ok order ↔ (after cs).WaveOrder tie order := by
  have h : (after cs).Indexed := indexed_after cs
  obtain ⟨order, hsort, horder⟩ := h.exists_waveOrder tie hacyclic
  refine ⟨h.exists_depth hacyclic, ⟨order, hsort⟩, fun order' => ?_⟩
  constructor
  · intro hsort'
    obtain rfl : order = order' := Except.ok.inj (hsort.symm.trans hsort')
    exact horder
  · intro horder'
    rw [hsort, horder.unique horder']

/-- Nodes that the tie-break does not tell apart, and two that it puts behind them. -/
def threeRoots : List (Change Nat String Nat) :=
  [.addNode 11 "k", .addNode 10 "j", .addNode 6 "f", .addNode 5 "e", .addNode 4 "d", .addNode 3 "c",
    .addNode 2 "b", .addNode 1 "a", .addEdge 1 6 0, .addEdge 1 5 0, .addEdge 2 5 0, .addEdge 3 4 0,
    .addEdge 1 11 0]

theorem sort_threeRoots :
    (after threeRoots).sort (compareOn (· / 10)) = .ok [1, 2, 3, 10, 6, 5, 4, 11] := by
  cbv

/-- Among the nodes below ten, 5 waits for 2 and so comes after 6, and before 4, which waits for
3. -/
theorem waveOrder_threeRoots : (after threeRoots).Acyclic ∧
    (after threeRoots).WaveOrder (compareOn (· / 10)) [1, 2, 3, 10, 6, 5, 4, 11] := by
  have hacyclic : (after threeRoots).Acyclic := by
    rcases (indexed_after threeRoots).sort_cases (compareOn (· / 10)) with h | ⟨-, unreached, h⟩
    · exact h.1
    · nomatch sort_threeRoots.symm.trans h
  obtain ⟨-, -, hiff⟩ := sort_eq_ok_iff_waveOrder threeRoots (compareOn (· / 10)) hacyclic
  exact ⟨hacyclic, (hiff _).1 sort_threeRoots⟩

end Requisite.Digraph
