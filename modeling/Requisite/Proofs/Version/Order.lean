import Mathlib.Data.List.DropRight
import Mathlib.Data.List.Lex
import Mathlib.Data.Prod.Lex
import Mathlib.Data.String.Basic
import Mathlib.Order.Compare
import Mathlib.Order.WithBot
import Requisite.Version.Order

/-!
# The order of versions is that of their keys

A version has a key: its epoch, its release without the zeros at its end, and the places of its
pre-release, its post-release and its development release.  Keys are compared part by part, in a
linear order that knows nothing of how versions are compared.  Comparing two versions answers how
their keys compare, and for equal keys how their local labels do.

* `Version.significant` — a release without the zeros at its end;
* `Version.key` — the key of a version;
* **`Version.compares_compareRelease`** — releases, filled with zeros, compare as their significant
  numbers;
* **`Version.compares_key_label`** — versions compare as their keys, and then as their labels;
* **`Version.compare_orders_by_key`** — the order is total, equal are the versions with equal parts, and
  without labels the order is that of the keys.
-/

namespace Requisite

open Ordering

/-! ### Comparing part by part -/

section Parts

variable {α β : Type} [LinearOrder α] [LinearOrder β]

theorem compares_compare (a b : α) : (compare a b).Compares a b := by
  rw [← cmp_eq_compare]
  exact cmp_compares a b

theorem compares_toLex {a a' : α} {b b' : β} {o o' : Ordering} (h : o.Compares a a')
    (h' : o'.Compares b b') : (o.then o').Compares (toLex (a, b)) (toLex (a', b')) := by
  cases o with
  | lt => exact Prod.Lex.toLex_lt_toLex.2 (Or.inl h)
  | gt => exact Prod.Lex.toLex_lt_toLex.2 (Or.inl h)
  | eq =>
    obtain rfl : a = a' := h
    cases o' with
    | lt => exact Prod.Lex.toLex_lt_toLex.2 (Or.inr ⟨rfl, h'⟩)
    | gt => exact Prod.Lex.toLex_lt_toLex.2 (Or.inr ⟨rfl, h'⟩)
    | eq => exact congrArg (fun b => toLex (a, b)) h'

theorem compares_of_toLex {a a' : α} {b : β} {o : Ordering}
    (h : o.Compares (toLex (a, b)) (toLex (a', b))) : o.Compares a a' := by
  have hlt : ∀ c c' : α, toLex (c, b) < toLex (c', b) → c < c' := fun c c' h =>
    (Prod.Lex.toLex_lt_toLex.1 h).elim id fun h => absurd h.2 (lt_irrefl b)
  cases o with
  | lt => exact hlt a a' h
  | gt => exact hlt a' a h
  | eq => exact congrArg (fun pair => (ofLex pair).1) h

theorem compares_cons {a a' : α} {as as' : List α} {o o' : Ordering} (h : o.Compares a a')
    (h' : o'.Compares as as') : (o.then o').Compares (a :: as) (a' :: as') := by
  cases o with
  | lt => exact List.cons_lt_cons_iff.2 (Or.inl h)
  | gt => exact List.cons_lt_cons_iff.2 (Or.inl h)
  | eq =>
    obtain rfl : a = a' := h
    cases o' with
    | lt => exact List.cons_lt_cons_iff.2 (Or.inr ⟨rfl, h'⟩)
    | gt => exact List.cons_lt_cons_iff.2 (Or.inr ⟨rfl, h'⟩)
    | eq => exact congrArg (a :: ·) h'

end Parts

/-! ### Parts that may be absent -/

section Absent

variable {α : Type}

/-- A part in an order in which its absence comes first. -/
def absentFirst (part : Option α) : WithBot α :=
  part.elim ⊥ (↑)

/-- A part in an order in which its absence comes last. -/
def absentLast (part : Option α) : WithTop α :=
  part.elim ⊤ (↑)

theorem absentFirst_injective : Function.Injective (absentFirst (α := α))
  | none, none, _ => rfl
  | none, some b, h => absurd h (WithBot.bot_ne_coe (a := b))
  | some a, none, h => absurd h (WithBot.coe_ne_bot (a := a))
  | some _, some _, h => congrArg some (WithBot.coe_injective h)

theorem absentLast_injective : Function.Injective (absentLast (α := α))
  | none, none, _ => rfl
  | none, some b, h => absurd h (WithTop.top_ne_coe (a := b))
  | some a, none, h => absurd h (WithTop.coe_ne_top (a := a))
  | some _, some _, h => congrArg some (WithTop.coe_injective h)

theorem compares_option [LinearOrder α] (a b : Option α) :
    (compare a b).Compares (absentFirst a) (absentFirst b) := by
  match a, b with
  | none, none => rfl
  | none, some b => exact WithBot.bot_lt_coe b
  | some a, none => exact WithBot.bot_lt_coe a
  | some a, some b => exact WithBot.coe_strictMono.compares.2 (compares_compare a b)

end Absent

namespace Version

/-! ### Releases -/

/-- The release without the zeros at its end. -/
def significant (release : List ℕ) : List ℕ :=
  release.rdropWhile (· == 0)

theorem significant_eq_nil_iff {ns : List ℕ} : significant ns = [] ↔ ns.all (· == 0) = true := by
  rw [significant, List.rdropWhile_eq_nil_iff, List.all_eq_true]

theorem significant_cons (n : ℕ) (ns : List ℕ) :
    significant (n :: ns) = if n = 0 ∧ significant ns = [] then [] else n :: significant ns := by
  unfold significant List.rdropWhile
  rw [List.reverse_cons, List.dropWhile_append]
  by_cases hns : ns.reverse.dropWhile (· == 0) = []
  · rw [hns]
    by_cases hn : n = 0
    · simp [hn]
    · simp [hn]
  · rw [if_neg (by simpa using hns), if_neg (by simpa using fun _ => hns), List.reverse_append]
    rfl

/-- A release that has no number left comes before one that has a number other than zero. -/
theorem compares_nil {m : ℕ} {ms : List ℕ} {o o' : Ordering} (h : o.Compares 0 m)
    (h' : o'.Compares [] ms) (hm : ¬(m = 0 ∧ ms = [])) : (o.then o').Compares [] (m :: ms) := by
  cases o with
  | lt => exact List.nil_lt_cons m ms
  | gt => exact absurd h (Nat.not_lt_zero m)
  | eq =>
    cases o' with
    | lt => exact List.nil_lt_cons m ms
    | gt => exact absurd h' (List.not_lt_nil ms)
    | eq => exact absurd ⟨h.symm, h'.symm⟩ hm

theorem compares_significant_cons {n m : ℕ} {ns ms : List ℕ} {o o' : Ordering} (h : o.Compares n m)
    (h' : o'.Compares (significant ns) (significant ms)) :
    (o.then o').Compares (significant (n :: ns)) (significant (m :: ms)) := by
  rw [significant_cons, significant_cons]
  split
  next hn =>
    rw [hn.1] at h
    rw [hn.2] at h'
    split
    next hm =>
      rw [hm.1] at h
      rw [hm.2] at h'
      rw [h.inj (show eq.Compares 0 0 from rfl), h'.inj (show eq.Compares [] [] from rfl)]
      rfl
    next hm => exact compares_nil h h' hm
  next hn =>
    split
    next hm =>
      rw [hm.1] at h
      rw [hm.2] at h'
      rw [← compares_swap, swap_then]
      exact compares_nil (compares_swap.2 h) (compares_swap.2 h') hn
    next => exact compares_cons h h'

/-- Releases, the shorter one filled with zeros, compare as their significant numbers. -/
theorem compares_compareRelease (xs ys : List ℕ) :
    (compareRelease xs ys).Compares (significant xs) (significant ys) := by
  fun_induction compareRelease xs ys with
  | case1 ys h =>
    rw [significant_eq_nil_iff.2 h]
    rfl
  | case2 ys h =>
    obtain ⟨m, ms, hms⟩ := List.exists_cons_of_ne_nil fun hnil => h (significant_eq_nil_iff.1 hnil)
    rw [hms]
    exact List.nil_lt_cons m ms
  | case3 x xs ih =>
    -- The empty release has the significant numbers of a lone zero.
    exact @compares_significant_cons x 0 xs [] _ _ (compares_compare x 0) ih
  | case4 x xs y ys ih => exact compares_significant_cons (compares_compare x y) ih

/-! ### Pre-releases and development releases -/

/-- Where the pre-release puts a version of a given release: before everything if the version is a
lone development release, after everything if it has no pre-release otherwise. -/
def prePlace (v : Version) : WithBot (WithTop (ℕ ×ₗ ℕ)) :=
  match v.pre, v.post, v.dev with
  | some (phase, n), _, _ => ((toLex (phase.rank, n) : ℕ ×ₗ ℕ) : WithTop (ℕ ×ₗ ℕ))
  | none, none, some _ => ⊥
  | none, _, _ => (⊤ : WithTop (ℕ ×ₗ ℕ))

theorem prePlace_cases (v : Version) :
    (v.preKey = [0] ∧ v.prePlace = ⊥ ∧ v.pre = none) ∨
      (v.preKey = [2] ∧ v.prePlace = (⊤ : WithTop (ℕ ×ₗ ℕ)) ∧ v.pre = none) ∨
        ∃ phase n, v.preKey = [1, phase.rank, n] ∧
          v.prePlace = ((toLex (phase.rank, n) : ℕ ×ₗ ℕ) : WithTop (ℕ ×ₗ ℕ)) ∧
            v.pre = some (phase, n) := by
  unfold preKey prePlace
  match v.pre, v.post, v.dev with
  | some (phase, n), _, _ => exact Or.inr (Or.inr ⟨phase, n, rfl, rfl, rfl⟩)
  | none, none, some _ => exact Or.inl ⟨rfl, rfl, rfl⟩
  | none, none, none => exact Or.inr (Or.inl ⟨rfl, rfl, rfl⟩)
  | none, some _, _ => exact Or.inr (Or.inl ⟨rfl, rfl, rfl⟩)

theorem compare_cons (n m : ℕ) (ns ms : List ℕ) :
    compare (n :: ns) (m :: ms) = (compare n m).then (compare ns ms) :=
  List.compareLex_cons_cons

theorem compare_singleton (n m : ℕ) : compare [n] [m] = compare n m := by
  rw [compare_cons]
  exact then_eq

theorem compares_preKey (a b : Version) :
    (compare a.preKey b.preKey).Compares a.prePlace b.prePlace := by
  rcases a.prePlace_cases with ⟨ha, ha', -⟩ | ⟨ha, ha', -⟩ | ⟨p, n, ha, ha', -⟩ <;>
    rcases b.prePlace_cases with ⟨hb, hb', -⟩ | ⟨hb, hb', -⟩ | ⟨q, m, hb, hb', -⟩ <;>
    rw [ha, hb, ha', hb']
  · rfl
  · exact WithBot.bot_lt_coe _
  · exact WithBot.bot_lt_coe _
  · exact WithBot.bot_lt_coe _
  · rfl
  · exact WithBot.coe_lt_coe.2 (WithTop.coe_lt_top _)
  · exact WithBot.bot_lt_coe _
  · exact WithBot.coe_lt_coe.2 (WithTop.coe_lt_top _)
  · refine WithBot.coe_strictMono.compares.2 (WithTop.coe_strictMono.compares.2 ?_)
    have hpair : compare [1, p.rank, n] [1, q.rank, m] =
        (compare p.rank q.rank).then (compare n m) := by
      rw [compare_cons, compare_cons, compare_singleton]
      rfl
    rw [hpair]
    exact compares_toLex (compares_compare p.rank q.rank) (compares_compare n m)

theorem compares_devKey (a b : Version) :
    (compare a.devKey b.devKey).Compares (absentLast a.dev) (absentLast b.dev) := by
  unfold devKey
  match a.dev, b.dev with
  | none, none => rfl
  | none, some m => exact WithTop.coe_lt_top m
  | some n, none => exact WithTop.coe_lt_top n
  | some n, some m =>
    have hpair : compare [0, n] [0, m] = compare n m := by
      rw [compare_cons, compare_singleton]
      rfl
    show (compare [0, n] [0, m]).Compares _ _
    rw [hpair]
    exact WithTop.coe_strictMono.compares.2 (compares_compare n m)

theorem rank_injective : Function.Injective Phase.rank := by
  intro p q h
  cases p <;> cases q <;> first | rfl | nomatch h

/-- The place of a pre-release tells which one it is. -/
theorem pre_eq_of_prePlace {a b : Version} (h : a.prePlace = b.prePlace) : a.pre = b.pre := by
  rcases a.prePlace_cases with ⟨-, ha, ha'⟩ | ⟨-, ha, ha'⟩ | ⟨p, n, -, ha, ha'⟩ <;>
    rcases b.prePlace_cases with ⟨-, hb, hb'⟩ | ⟨-, hb, hb'⟩ | ⟨q, m, -, hb, hb'⟩ <;>
    rw [ha, hb] at h <;> rw [ha', hb']
  · exact absurd h WithBot.bot_ne_coe
  · exact absurd (WithBot.coe_injective h) WithTop.top_ne_coe
  · exact absurd h WithBot.coe_ne_bot
  · exact absurd (WithBot.coe_injective h) WithTop.coe_ne_top
  · have hpair : (p.rank, n) = (q.rank, m) :=
      toLex_inj.1 (WithTop.coe_injective (WithBot.coe_injective h))
    obtain ⟨hrank, rfl⟩ := Prod.mk.inj hpair
    rw [rank_injective hrank]

/-! ### Keys -/

/-- Keys of versions, in lexicographic order. -/
abbrev Key : Type :=
  ℕ ×ₗ List ℕ ×ₗ WithBot (WithTop (ℕ ×ₗ ℕ)) ×ₗ WithBot ℕ ×ₗ WithTop ℕ

/-- The key of a version: its epoch, the significant numbers of its release, the place of its
pre-release, its post-release, which is lowest where it is absent, and its development release, which
is highest where it is absent. -/
def key (v : Version) : Key :=
  toLex (v.epoch, toLex (significant v.release, toLex (v.prePlace,
    toLex (absentFirst v.post, absentLast v.dev))))

/-- The key with the local label behind it. -/
def labelledKey (v : Version) : Key ×ₗ WithBot String :=
  toLex (v.key, absentFirst v.label)

/-- Versions compare as their keys, and then as their labels. -/
theorem compares_key_label (a b : Version) : (a.compare b).Compares a.labelledKey b.labelledKey := by
  unfold Version.compare
  refine compares_toLex ?_ (compares_option a.label b.label)
  rw [then_assoc, then_assoc, then_assoc]
  exact compares_toLex (compares_compare a.epoch b.epoch)
    (compares_toLex (compares_compareRelease a.release b.release)
      (compares_toLex (compares_preKey a b)
        (compares_toLex (compares_option a.post b.post) (compares_devKey a b))))

/-- Keys and labels tell the parts of a version, but for the zeros at the end of its release. -/
theorem labelledKey_eq_iff {a b : Version} : a.labelledKey = b.labelledKey ↔
    a.epoch = b.epoch ∧ significant a.release = significant b.release ∧ a.pre = b.pre ∧
      a.post = b.post ∧ a.dev = b.dev ∧ a.label = b.label := by
  constructor
  · intro h
    obtain ⟨hkey, hlabel⟩ := Prod.mk.inj (toLex_inj.1 h)
    obtain ⟨hepoch, hkey⟩ := Prod.mk.inj (toLex_inj.1 hkey)
    obtain ⟨hrelease, hkey⟩ := Prod.mk.inj (toLex_inj.1 hkey)
    obtain ⟨hpre, hkey⟩ := Prod.mk.inj (toLex_inj.1 hkey)
    obtain ⟨hpost, hdev⟩ := Prod.mk.inj (toLex_inj.1 hkey)
    exact ⟨hepoch, hrelease, pre_eq_of_prePlace hpre, absentFirst_injective hpost,
      absentLast_injective hdev, absentFirst_injective hlabel⟩
  · rintro ⟨hepoch, hrelease, hpre, hpost, hdev, hlabel⟩
    rw [labelledKey, labelledKey, key, key, prePlace, prePlace, hepoch, hrelease, hpre, hpost, hdev,
      hlabel]

/-- Versions that are compared the other way round come out the other way round. -/
theorem swap_compare (a b : Version) : (a.compare b).swap = b.compare a :=
  (compares_swap.2 (compares_key_label a b)).inj (compares_key_label b a)

theorem isLE_compare {a b : Version} : (a.compare b).isLE = true ↔ a.labelledKey ≤ b.labelledKey := by
  rw [← (compares_key_label a b).ne_gt]
  cases a.compare b <;> decide

theorem same_iff {a b : Version} : a.same b = true ↔ a.compare b = .eq := by
  rw [same, beq_iff_eq]

/-- Versions are totally ordered.  Comparing them the other way round gives the opposite answer; "not
after" is transitive; versions that count as the same are equal in every part, but for the zeros at
the end of their releases, and compare alike with every other version; and versions without labels
are in the order of their keys. -/
theorem compare_orders_by_key :
    (∀ a b : Version, b.compare a = (a.compare b).swap) ∧
    (∀ a b c : Version, (a.compare b).isLE → (b.compare c).isLE → (a.compare c).isLE) ∧
    (∀ a b : Version, a.same b = true ↔ a.compare b = .eq) ∧
    (∀ a b : Version, a.same b = true → ∀ c, a.compare c = b.compare c) ∧
    (∀ a b : Version, a.compare b = .eq ↔
      a.epoch = b.epoch ∧ significant a.release = significant b.release ∧ a.pre = b.pre ∧
        a.post = b.post ∧ a.dev = b.dev ∧ a.label = b.label) ∧
    ∀ a b : Version, a.label = none → b.label = none → (a.compare b).Compares a.key b.key := by
  refine ⟨fun a b => ?_, fun a b c hab hbc => ?_, fun a b => same_iff, fun a b h c => ?_,
    fun a b => ?_, fun a b ha hb => ?_⟩
  · exact (compares_key_label b a).inj (compares_swap.2 (compares_key_label a b))
  · exact isLE_compare.2 ((isLE_compare.1 hab).trans (isLE_compare.1 hbc))
  · have hkey := (compares_key_label a b).eq_eq.1 (same_iff.1 h)
    have hb := compares_key_label b c
    rw [← hkey] at hb
    exact (compares_key_label a c).inj hb
  · rw [(compares_key_label a b).eq_eq, labelledKey_eq_iff]
  · have h := compares_key_label a b
    rw [labelledKey, labelledKey, ha, hb] at h
    exact compares_of_toLex h

/-- A development release of a first alpha comes after a lone development release, and both come
before the post-release of the same version in a longer spelling. -/
theorem compare_orders_by_key_suffixes :
    let lone : Version := { ofRelease 0 [1] with dev := some 7 }
    let alpha : Version := { ofRelease 0 [1, 0] with pre := some (.alpha, 1), dev := some 0 }
    let late : Version := { ofRelease 0 [1, 0, 0] with post := some 1 }
    lone.label = none ∧ alpha.label = none ∧ lone.compare alpha = .lt ∧ lone.key < alpha.key ∧
      (alpha.compare late).isLE ∧ (lone.compare late).isLE := by
  intro lone alpha late
  have hkeys := compare_orders_by_key.2.2.2.2.2 lone alpha rfl rfl
  have hlate : (alpha.compare late).isLE := by decide
  have htrans := compare_orders_by_key.2.1 lone alpha late (by decide) hlate
  exact ⟨rfl, rfl, by decide, hkeys, hlate, htrans⟩

end Version

end Requisite
