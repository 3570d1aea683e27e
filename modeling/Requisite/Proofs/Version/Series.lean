import Mathlib.Order.Nat
import Requisite.Proofs.Version.Order

/-!
# Series of releases are intervals

A series is formed by the versions of one epoch whose releases begin with the same numbers, a missing
number counting as zero.  Versions are ordered by the place of their release first, and the suffixes
decide among the versions of one release only.  Every release has an earliest version, the
development release zero, and so a series goes from the earliest version of its own numbers up to,
but not including, that of the next ones.

* `Version.place` — the place of a version among the releases;
* `Version.earliest` — the earliest version of a release;
* **`Version.before_iff`**, **`Version.atMost_iff`** — the order by place, and then by suffixes;
* **`Version.releaseStartsWith_iff`** — the releases that begin with some numbers are an interval;
* **`Version.inSeries_iff`** — so are the versions of a series.
-/

namespace Requisite

open Ordering

namespace Version

/-! ### Places -/

/-- The place of a version among the releases: its epoch and the significant numbers of its
release. -/
def place (v : Version) : ℕ ×ₗ List ℕ :=
  toLex (v.epoch, significant v.release)

/-- The place that its suffixes give a version among those of the same release. -/
def suffixPlace (v : Version) :
    WithBot (WithTop (ℕ ×ₗ ℕ)) ×ₗ WithBot ℕ ×ₗ WithTop ℕ ×ₗ WithBot String :=
  toLex (v.prePlace, toLex (absentFirst v.post, toLex (absentLast v.dev, absentFirst v.label)))

@[simp] theorem place_common (v : Version) : v.common.place = v.place := rfl

theorem compares_place (a b : Version) :
    ((compare a.epoch b.epoch).then (compareRelease a.release b.release)).Compares a.place b.place :=
  compares_toLex (compares_compare a.epoch b.epoch) (compares_compareRelease a.release b.release)

/-- Versions compare by the places of their releases, and then by their suffixes. -/
theorem compares_suffixPlace (a b : Version) : (a.compare b).Compares
    (toLex (a.place, a.suffixPlace)) (toLex (b.place, b.suffixPlace)) := by
  unfold Version.compare
  rw [then_assoc, then_assoc, then_assoc]
  exact compares_toLex (compares_place a b) (compares_toLex (compares_preKey a b)
    (compares_toLex (compares_option a.post b.post)
      (compares_toLex (compares_devKey a b) (compares_option a.label b.label))))

theorem before_iff {a b : Version} : a.before b = true ↔
    a.place < b.place ∨ a.place = b.place ∧ a.suffixPlace < b.suffixPlace := by
  rw [before, beq_iff_eq, (compares_suffixPlace a b).eq_lt]
  exact Prod.Lex.toLex_lt_toLex

theorem atMost_iff {a b : Version} : a.atMost b = true ↔
    a.place < b.place ∨ a.place = b.place ∧ a.suffixPlace ≤ b.suffixPlace := by
  rw [atMost, bne_iff_ne, (compares_suffixPlace a b).ne_gt]
  exact Prod.Lex.toLex_le_toLex

theorem place_le_of_atMost {a b : Version} (h : a.atMost b = true) : a.place ≤ b.place :=
  (atMost_iff.1 h).elim le_of_lt fun hsame => hsame.1.le

theorem sameRelease_iff {a b : Version} : a.sameRelease b = true ↔ a.place = b.place := by
  rw [sameRelease, Bool.and_eq_true, beq_iff_eq, beq_iff_eq,
    (compares_compareRelease a.release b.release).eq_eq]
  exact Prod.mk_inj.symm.trans toLex_inj.symm

/-! ### The ends of a series -/

/-- The earliest version of a release: its development release zero. -/
def earliest (epoch : ℕ) (release : List ℕ) : Version :=
  { ofRelease epoch release with dev := some 0 }

theorem suffixPlace_earliest (epoch : ℕ) (release : List ℕ) :
    (earliest epoch release).suffixPlace = ⊥ := rfl

/-- Not before the earliest version of a release are the versions of this release and of later
ones. -/
theorem earliest_atMost_iff {epoch : ℕ} {release : List ℕ} {v : Version} :
    (earliest epoch release).atMost v = true ↔ (ofRelease epoch release).place ≤ v.place := by
  rw [atMost_iff, suffixPlace_earliest]
  exact (or_congr_right (and_iff_left bot_le)).trans le_iff_lt_or_eq.symm

theorem before_earliest_iff {epoch : ℕ} {release : List ℕ} {v : Version} :
    v.before (earliest epoch release) = true ↔ v.place < (ofRelease epoch release).place := by
  rw [before_iff, suffixPlace_earliest]
  exact or_iff_left fun h => not_lt_bot h.2

/-- A version of a release that is no pre-release does not come before the release itself. -/
theorem suffixPlace_le_of_not_isPrerelease {v : Version} (h : v.isPrerelease = false) (epoch : ℕ)
    (release : List ℕ) : (ofRelease epoch release).suffixPlace ≤ v.suffixPlace := by
  rw [isPrerelease, Bool.or_eq_false_iff, Option.isSome_eq_false_iff, Option.isSome_eq_false_iff,
    Option.isNone_iff_eq_none, Option.isNone_iff_eq_none] at h
  obtain ⟨hpre, hdev⟩ := h
  have hplace : v.prePlace = (ofRelease epoch release).prePlace := by
    unfold prePlace
    rw [hpre, hdev]
    cases v.post <;> rfl
  rw [suffixPlace, suffixPlace, hplace, hdev]
  refine Prod.Lex.toLex_le_toLex.2 (Or.inr ⟨rfl, Prod.Lex.toLex_le_toLex.2 ?_⟩)
  refine (bot_le (a := absentFirst v.post)).lt_or_eq.imp_right fun hpost => ⟨hpost, ?_⟩
  exact Prod.Lex.toLex_le_toLex.2 (Or.inr ⟨rfl, bot_le⟩)

/-- Of the versions before a release, all but its pre-releases have an earlier release. -/
theorem before_ofRelease_iff {epoch : ℕ} {release : List ℕ} {v : Version} :
    (v.common.before (ofRelease epoch release) &&
      !(v.isPrerelease && v.sameRelease (ofRelease epoch release))) = true ↔
      v.place < (ofRelease epoch release).place := by
  rw [Bool.and_eq_true, Bool.not_eq_true', before_iff, place_common]
  constructor
  · rintro ⟨hlt | ⟨hsame, hsuffix⟩, hpre⟩
    · exact hlt
    · rw [sameRelease_iff.2 hsame, Bool.and_true] at hpre
      have hpre : v.common.isPrerelease = false := hpre
      exact absurd hsuffix (suffixPlace_le_of_not_isPrerelease hpre epoch release).not_gt
  · intro hlt
    refine ⟨Or.inl hlt, ?_⟩
    have hother : v.sameRelease (ofRelease epoch release) = false :=
      Bool.eq_false_iff.2 fun hsame => hlt.ne (sameRelease_iff.1 hsame)
    rw [hother, Bool.and_false]

/-! ### Releases that begin alike -/

theorem significant_lt_cons_iff {n m : ℕ} {ns ms : List ℕ} :
    significant (n :: ns) < significant (m :: ms) ↔
      n < m ∨ n = m ∧ significant ns < significant ms := by
  rw [← (compares_compareRelease (n :: ns) (m :: ms)).eq_lt, compareRelease, Ordering.then_eq_lt,
    (compares_compare n m).eq_lt, (compares_compare n m).eq_eq,
    (compares_compareRelease ns ms).eq_lt]

theorem significant_le_cons_iff {n m : ℕ} {ns ms : List ℕ} :
    significant (n :: ns) ≤ significant (m :: ms) ↔
      n < m ∨ n = m ∧ significant ns ≤ significant ms := by
  rw [← not_lt, significant_lt_cons_iff, ← not_lt (a := significant ms)]
  rcases lt_trichotomy n m with h | rfl | h
  · exact iff_of_true (by omega) (Or.inl h)
  · simp
  · exact iff_of_false (not_not.2 (Or.inl h)) (by omega)

theorem significant_cons_congr {ns ms : List ℕ} (h : significant ns = significant ms) (n : ℕ) :
    significant (n :: ns) = significant (n :: ms) := by
  rw [significant_cons, significant_cons, h]

/-- A missing number counts as zero. -/
theorem significant_headD_tail (ns : List ℕ) :
    significant (ns.headD 0 :: ns.tail) = significant ns := by
  cases ns with
  | nil => rfl
  | cons n ns => rfl

theorem releaseStartsWith_cons (xs ns : List ℕ) (n : ℕ) :
    releaseStartsWith xs (n :: ns) = (xs.headD 0 == n && releaseStartsWith xs.tail ns) := by
  cases xs with
  | nil => exact congrArg (· && ns.all (· == 0)) (BEq.comm (a := n))
  | cons x xs => rfl

theorem releaseStartsWith_nil (xs : List ℕ) : releaseStartsWith xs [] = true := by
  cases xs <;> rfl

/-- The releases that begin with some numbers are those from these numbers up to the next ones. -/
theorem releaseStartsWith_iff {xs ns : List ℕ} {n : ℕ} :
    releaseStartsWith xs (ns ++ [n]) = true ↔
      significant (ns ++ [n]) ≤ significant xs ∧ significant xs < significant (ns ++ [n + 1]) := by
  induction ns generalizing xs with
  | nil =>
    have hnil : significant [] ≤ significant xs.tail ∧ ¬significant xs.tail < significant [] :=
      ⟨not_lt.1 (List.not_lt_nil _), List.not_lt_nil _⟩
    rw [List.nil_append, List.nil_append, releaseStartsWith_cons, releaseStartsWith_nil,
      Bool.and_true, beq_iff_eq, ← significant_headD_tail xs, significant_le_cons_iff,
      significant_lt_cons_iff]
    grind
  | cons m ns ih =>
    rw [List.cons_append, List.cons_append, releaseStartsWith_cons, Bool.and_eq_true, beq_iff_eq, ih,
      ← significant_headD_tail xs, significant_le_cons_iff, significant_lt_cons_iff]
    grind

/-- A release begins with its first numbers. -/
theorem releaseStartsWith_take (xs : List ℕ) (k : ℕ) : releaseStartsWith xs (xs.take k) = true := by
  induction xs generalizing k with
  | nil => rw [List.take_nil]; rfl
  | cons x xs ih =>
    cases k with
    | zero => rfl
    | succ k => rw [List.take_succ_cons, releaseStartsWith, beq_self_eq_true, ih, Bool.and_true]

/-- A series is an interval of releases. -/
theorem inSeries_iff {v : Version} {epoch : ℕ} {ns : List ℕ} {n : ℕ} :
    (v.epoch == epoch && releaseStartsWith v.release (ns ++ [n])) = true ↔
      (ofRelease epoch (ns ++ [n])).place ≤ v.place ∧
        v.place < (ofRelease epoch (ns ++ [n + 1])).place := by
  rw [Bool.and_eq_true, beq_iff_eq, releaseStartsWith_iff, place, place, place,
    Prod.Lex.toLex_le_toLex, Prod.Lex.toLex_lt_toLex]
  dsimp only [ofRelease]
  constructor
  · rintro ⟨rfl, hle, hlt⟩
    exact ⟨Or.inr ⟨rfl, hle⟩, Or.inr ⟨rfl, hlt⟩⟩
  · rintro ⟨hlow | ⟨hlow, hle⟩, hhigh | ⟨hhigh, hlt⟩⟩
    · exact absurd hhigh hlow.not_gt
    · exact absurd hhigh hlow.ne'
    · exact absurd hlow hhigh.ne'
    · exact ⟨hhigh, hle, hlt⟩

end Version

end Requisite
