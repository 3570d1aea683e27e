import Requisite.Version.Basic

/-!
# The order of versions

Versions are compared by epoch, release, pre-release, post-release, development release and local
label, in this sequence.  A missing release number counts as zero.  A lone development release
comes before every pre-release and a version without either after them; a version without a
post-release comes before its post-releases, a development release before the version it leads
to, and a version without a label before the same version with one.  Labels compare as texts.

* `Version.compare` — the comparison, registered as the `Ord` instance;
* `compareRelease_self`, `Version.compare_self` — a version equals itself.
-/

namespace Requisite.Version

/-- Release numbers in lexicographic order, the shorter list filled with zeros. -/
def compareRelease : List Nat → List Nat → Ordering
  | [], ys => if ys.all (· == 0) then .eq else .lt
  | x :: xs, [] => (Ord.compare x 0).then (compareRelease xs [])
  | x :: xs, y :: ys => (Ord.compare x y).then (compareRelease xs ys)

theorem compareRelease_self (xs : List Nat) : compareRelease xs xs = .eq := by
  induction xs with
  | nil => rfl
  | cons x xs ih => simp [compareRelease, ih]

/-- Where the pre-release part puts a version of a given release: a lone development release
first, then the phases with their numbers, then every other version. -/
def preKey (v : Version) : List Nat :=
  match v.pre, v.post, v.dev with
  | none, none, some _ => [0]
  | some (phase, n), _, _ => [1, phase.rank, n]
  | _, _, _ => [2]

/-- Where the development release puts a version: before the same version without one. -/
def devKey (v : Version) : List Nat :=
  match v.dev with
  | some n => [0, n]
  | none => [1]

/-- The order of versions. -/
protected def compare (a b : Version) : Ordering :=
  (Ord.compare a.epoch b.epoch)
    |>.then (compareRelease a.release b.release)
    |>.then (Ord.compare a.preKey b.preKey)
    |>.then (Ord.compare a.post b.post)
    |>.then (Ord.compare a.devKey b.devKey)
    |>.then (Ord.compare a.label b.label)

instance : Ord Version where
  compare := Version.compare

/-- Versions that the order puts in the same place. -/
def same (a b : Version) : Bool :=
  a.compare b == .eq

/-- The first version comes strictly before the second. -/
def before (a b : Version) : Bool :=
  a.compare b == .lt

/-- The first version does not come after the second. -/
def atMost (a b : Version) : Bool :=
  a.compare b != .gt

theorem compare_self (v : Version) : v.compare v = .eq := by
  simp [Version.compare, compareRelease_self]

/-- The epochs agree and the releases too, up to zeros at the end. -/
def sameRelease (a b : Version) : Bool :=
  a.epoch == b.epoch && compareRelease a.release b.release == .eq

/-- The release begins with `lead`, a missing number counting as zero. -/
def releaseStartsWith : (release lead : List Nat) → Bool
  | [], lead => lead.all (· == 0)
  | _ :: _, [] => true
  | x :: xs, p :: lead => x == p && releaseStartsWith xs lead

end Requisite.Version
