import Requisite.Proofs.Digraph.Order

/-!
# Depth

The depth of a node is the number of edges on the longest path that ends in it.  A node joins the
wave after the one that places the last of its predecessors, so that the waves are the nodes of one
depth after the other.

* **`longestChain_iff`**, **`chainsBelow_succ`** — how long the chains are that end somewhere is
  told by those that end one step before;
* **`Digraph.waves_rounds`** — each wave is what the one before it releases;
* **`Digraph.AtDepth.mem_wave_iff`**, **`Digraph.AtDepth.next`** — a wave holds the nodes of one
  depth, and the wave after it those of the next one;
* **`Digraph.Indexed.exists_depth`** — without a cycle every node has a depth.
-/

namespace Requisite

/-! ### Chains -/

/-- Some steps of a relation, `n` of them and one after the other, end in `x`. -/
inductive Chain {α : Type} (r : α → α → Prop) : (n : Nat) → (x : α) → Prop
  | start (x : α) : Chain r 0 x
  | step {n : Nat} {x y : α} (h : Chain r n x) (hxy : r x y) : Chain r (n + 1) y

/-- The longest chain that ends in `x` has `n` steps. -/
def LongestChain {α : Type} (r : α → α → Prop) (n : Nat) (x : α) : Prop :=
  Chain r n x ∧ ∀ m, Chain r m x → m ≤ n

/-- The chains that end in `x` all have fewer than `n` steps. -/
def ChainsBelow {α : Type} (r : α → α → Prop) (n : Nat) (x : α) : Prop :=
  ∀ m, Chain r m x → m < n

section Chains

variable {α : Type} {r : α → α → Prop} {m n : Nat} {x y : α}

theorem LongestChain.unique (h : LongestChain r m x) (h' : LongestChain r n x) : m = n :=
  Nat.le_antisymm (h'.2 m h.1) (h.2 n h'.1)

/-- Chains get longer with a step. -/
theorem LongestChain.lt (hx : LongestChain r m x) (hy : LongestChain r n y) (hxy : r x y) :
    m < n :=
  hy.2 (m + 1) (.step hx.1 hxy)

/-- Where no step ends, no chain but the empty one does. -/
theorem LongestChain.not_step (h : LongestChain r 0 y) : ¬r x y := by
  intro hxy
  exact absurd (h.2 1 (.step (.start x) hxy)) (Nat.not_succ_le_zero 0)

theorem not_chainsBelow_zero : ¬ChainsBelow r 0 x := by
  intro h
  exact Nat.not_lt_zero 0 (h 0 (.start x))

theorem chainsBelow_succ : ChainsBelow r (n + 1) y ↔ ∀ x, r x y → ChainsBelow r n x := by
  constructor
  · intro h x hxy m hm
    exact Nat.lt_of_succ_lt_succ (h (m + 1) (.step hm hxy))
  · intro h m hm
    cases hm with
    | start => exact Nat.succ_pos n
    | step hm hxy => exact Nat.succ_lt_succ (h _ hxy _ hm)

theorem longestChain_iff : LongestChain r n x ↔ ChainsBelow r (n + 1) x ∧ ¬ChainsBelow r n x := by
  constructor
  · intro h
    exact ⟨fun m hm => Nat.lt_succ_of_le (h.2 m hm), fun hbelow => Nat.lt_irrefl n (hbelow n h.1)⟩
  · intro h
    obtain ⟨hbelow, hnot⟩ := h
    simp only [ChainsBelow, not_forall, not_lt] at hnot
    obtain ⟨m, hm, hnm⟩ := hnot
    obtain rfl : n = m := Nat.le_antisymm hnm (Nat.le_of_lt_succ (hbelow m hm))
    exact ⟨hm, fun k hk => Nat.le_of_lt_succ (hbelow k hk)⟩

end Chains

namespace Digraph

open Std

variable {κ ν ε : Type} [Ord κ] [TransOrd κ] {g : Digraph κ ν ε} {tie : κ → κ → Ordering}

/-- The longest path that ends in a node has `n` edges. -/
def Depth (g : Digraph κ ν ε) (id : κ) (n : Nat) : Prop :=
  LongestChain g.Edge n id

/-! ### The wave of one depth -/

/-- The wave is due when all nodes of a smaller depth than `k` are placed, and no others. -/
structure AtDepth (g : Digraph κ ν ε) (k : Nat) (placed : KeySet κ) (wave : List κ) : Prop where
  due : g.Due placed wave
  mem_placed (id : κ) : id ∈ placed ↔ id ∈ g.vertices ∧ ChainsBelow g.Edge k id

section AtDepth

variable {k : Nat} {placed : KeySet κ} {wave : List κ}

theorem AtDepth.ready_iff (hk : g.AtDepth k placed wave) (h : g.Indexed) (id : κ) :
    g.Ready placed id ↔ id ∈ g.vertices ∧ ChainsBelow g.Edge (k + 1) id := by
  refine and_congr_right fun _ => ?_
  rw [chainsBelow_succ]
  refine forall_congr' fun a => forall_congr' fun ha => ?_
  exact (hk.mem_placed a).trans (and_iff_right (h.ends_mem a id ha).1)

/-- The wave holds the nodes of depth `k`. -/
theorem AtDepth.mem_wave_iff (hk : g.AtDepth k placed wave) (h : g.Indexed) (id : κ) :
    id ∈ wave ↔ id ∈ g.vertices ∧ g.Depth id k := by
  rw [hk.due.mem_wave, hk.ready_iff h, hk.mem_placed, Depth, longestChain_iff]
  constructor
  · intro hid
    obtain ⟨⟨hmem, hbelow⟩, hnot⟩ := hid
    exact ⟨hmem, hbelow, fun hplaced => hnot ⟨hmem, hplaced⟩⟩
  · intro hid
    obtain ⟨hmem, hbelow, hnot⟩ := hid
    exact ⟨⟨hmem, hbelow⟩, fun hplaced => hnot hplaced.2⟩

variable [LawfulEqOrd κ]

theorem atDepth_sources (h : g.Indexed) (tie : κ → κ → Ordering) :
    g.AtDepth 0 ∅ (tieSort tie g.sources.toList) where
  due := due_sources h tie
  mem_placed _ := iff_of_false ExtTreeSet.not_mem_empty fun hid => not_chainsBelow_zero hid.2

/-- What a wave releases is one deeper. -/
theorem AtDepth.next (hk : g.AtDepth k placed wave) (h : g.Indexed) (tie : κ → κ → Ordering) :
    g.AtDepth (k + 1) (placed.insertMany wave) (tieSort tie (g.nextWave placed wave)) where
  due := hk.due.next h tie
  mem_placed id := by
    rw [KeySet.mem_insertMany, ← hk.ready_iff h]
    constructor
    · intro hid
      rcases hid with hid | hid
      · exact hk.due.ready_of_mem id hid
      · exact ((hk.due.mem_wave id).1 hid).1
    · intro hready
      by_cases hid : id ∈ placed
      · exact Or.inl hid
      · exact Or.inr ((hk.due.mem_wave id).2 ⟨hready, hid⟩)

end AtDepth

/-! ### From wave to wave -/

/-- Each wave is placed after `placed` and the waves before it, and what it releases is the wave
after it, until one is empty. -/
inductive Rounds (g : Digraph κ ν ε) (tie : κ → κ → Ordering) :
    (placed : KeySet κ) → (wave : List κ) → (waves : List (List κ)) → Prop
  | done (placed : KeySet κ) : Rounds g tie placed [] []
  | round {placed : KeySet κ} {wave : List κ} {waves : List (List κ)}
      (hrest : Rounds g tie (placed.insertMany wave) (tieSort tie (g.nextWave placed wave)) waves) :
      Rounds g tie placed wave (wave :: waves)

variable [LawfulEqOrd κ]

/-- The counts are right all the time, so that the loop over the waves comes to what they
release. -/
theorem Ends.rounds (h : g.Indexed) {placed : KeySet κ} {pending : KeyMap κ Nat} {wave : List κ}
    {waves : List (List κ)} (hends : g.Ends tie pending wave (.ok waves)) (hd : g.Due placed wave)
    (hp : g.Counted placed pending) : g.Rounds tie placed wave waves := by
  generalize hr : (Except.ok waves : Except (Error κ) (List (List κ))) = r at hends
  induction hends generalizing placed waves with
  | done =>
    obtain rfl := Except.ok.inj hr
    exact .done placed
  | failed => nomatch hr
  | @wave pending wave p r _ hplace _ ih =>
    cases r with
    | error e => nomatch hr
    | ok rest =>
      obtain rfl : waves = wave :: rest := Except.ok.inj hr
      obtain ⟨p', hplace', hp', hnext⟩ := place_eq_ok h (p := ⟨pending, []⟩) hp hd.nodup
        (fun id hid => ((hd.mem_wave id).1 hid).2) fun id hid => ((hd.mem_wave id).1 hid).1.1
      obtain rfl : p' = p := Except.ok.inj (hplace'.symm.trans hplace)
      rw [List.nil_append] at hnext
      rw [hnext] at ih
      exact .round (ih (hd.next h tie) hp' rfl)

/-- From the sources on each wave is what the one before it releases, and no node is left over that
could be placed. -/
theorem waves_rounds (h : g.Indexed) (tie : κ → κ → Ordering) :
    ∃ waves, g.waves tie = .ok waves ∧ g.Rounds tie ∅ (tieSort tie g.sources.toList) waves ∧
      g.Places ∅ waves.flatten := by
  obtain ⟨waves, hwaves, hends, hplaces⟩ := waves_places h tie
  exact ⟨waves, hwaves, hends.rounds h (due_sources h tie) counted_inDegrees, hplaces⟩

/-- The waves come one depth after the other. -/
theorem Rounds.depth (h : g.Indexed) {k : Nat} {placed : KeySet κ} {wave : List κ}
    {waves : List (List κ)} (hrounds : g.Rounds tie placed wave waves)
    (hk : g.AtDepth k placed wave) : ∀ id ∈ waves.flatten, ∃ n, k ≤ n ∧ g.Depth id n := by
  induction hrounds generalizing k with
  | done => exact fun _ hid => absurd hid List.not_mem_nil
  | @round placed wave waves _ ih =>
    intro id hid
    rw [List.flatten_cons, List.mem_append] at hid
    rcases hid with hid | hid
    · exact ⟨k, Nat.le_refl k, ((hk.mem_wave_iff h id).1 hid).2⟩
    · obtain ⟨n, hn, hdepth⟩ := ih (hk.next h tie) id hid
      exact ⟨n, Nat.le_of_succ_le hn, hdepth⟩

/-- Without a cycle every node is at some depth. -/
theorem Indexed.exists_depth (h : g.Indexed) (hacyclic : g.Acyclic) :
    ∀ id ∈ g.vertices, ∃ n, g.Depth id n := by
  obtain ⟨waves, -, hrounds, hplaces⟩ := waves_rounds h compare
  intro id hid
  have hmem : id ∈ waves.flatten :=
    (hplaces.mem_iff h).2 ⟨hid, acyclic_iff_not_belowCycle.1 hacyclic id⟩
  obtain ⟨n, -, hn⟩ := hrounds.depth h (atDepth_sources h compare) id hmem
  exact ⟨n, hn⟩

end Digraph

end Requisite
