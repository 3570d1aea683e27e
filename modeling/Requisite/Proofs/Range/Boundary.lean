import Requisite.Proofs.Range.Shorthand

/-!
# A bound and its own range

A bound lies within the ranges that include it and outside of those that exclude it, under every
relation and both shorthands, as long as it has no local label.  A candidate is compared without its
label, but a bound with it, and so a bound with a label comes behind itself: it is refused by its own
lower bounds and accepted below itself.

* `Relation.isReflexive`, `Relation.countsLabel` — the relations that include their bound, and those
  for which its label counts;
* `Range.Bounded` — a text lies within and outside of its own ranges as the relations say;
* **`Version.compare_common`** — a label puts a version behind itself;
* **`Clause.admits_self`** — what the clause of a version says about the version;
* **`Range.parse_bound_iff`** — which of the ranges of a version are read, and how;
* **`Range.bounded_iff`** — the ranges are right about their own bound exactly if it has no label, and
  which are wrong if it has one.
-/

namespace Requisite

open Text

namespace Version

/-- Versions that differ in their labels only compare by their labels. -/
theorem compare_of_common {a b : Version} (h : a.common = b.common) :
    a.compare b = Ord.compare a.label b.label := by
  obtain ⟨epoch, release, pre, post, dev, label⟩ := a
  obtain ⟨epoch', release', pre', post', dev', label'⟩ := b
  obtain ⟨rfl, rfl, rfl, rfl, rfl, -⟩ := Version.mk.inj h
  simp [Version.compare, compareRelease_self, preKey, devKey]

/-- A version without its label equals the version, or comes before it if there was one. -/
theorem compare_common (v : Version) :
    v.common.compare v = if v.label.isNone then .eq else .lt := by
  rw [compare_of_common (common_common v), label_common]
  cases v.label <;> rfl

/-- A version equals itself without its label, or comes behind it if there was one. -/
theorem compare_common_right (v : Version) :
    v.compare v.common = if v.label.isNone then .eq else .gt := by
  rw [compare_of_common (common_common v).symm, label_common]
  cases v.label <;> rfl

end Version

/-- The relations that include their bound. -/
def Relation.isReflexive : Relation → Bool
  | .equal | .atMost | .atLeast | .compatible | .verbatim => true
  | .notEqual | .less | .greater => false

/-- The relations that a label of the bound turns against the bound itself: the candidate is compared
without its label, the bound with it. -/
def Relation.countsLabel : Relation → Bool
  | .less | .atLeast | .compatible => true
  | _ => false

namespace Clause

/-- The clause of a version is right about the version itself, unless a label counts. -/
theorem admits_self (relation : Relation) (v : Version) (raw : String) :
    admits ⟨relation, String.ofList (trim raw.toList), v, false⟩ v raw =
      (relation.isReflexive ^^ (relation.countsLabel && v.label.isSome)) := by
  have hlast := Version.releaseStartsWith_take v.release (v.release.length - 1)
  rw [← List.dropLast_eq_take] at hlast
  cases relation <;> cases hlabel : v.label <;>
    simp [admits, meets, Version.same, Version.before, Version.atMost, Version.compare_common,
      Version.compare_common_right, Version.compare_self, Relation.isReflexive,
      Relation.countsLabel, hlabel, hlast]

end Clause

namespace Range

/-- A text lies within the ranges that include it as their bound, and outside of those that exclude
it. -/
def Bounded (text : String) : Prop :=
  (∀ (relation : Relation) r, parse (relation.sign ++ text) = .ok r →
    r.accepts text = .ok relation.isReflexive) ∧
  ∀ (kind : Shorthand) r, parse (kind.sign ++ text) = .ok r → r.accepts text = .ok true

/-- A version is a bound of every relation, but that of compatible releases wants two numbers.  The
range has one clause. -/
theorem parse_bound_iff (relation : Relation) {text : String} {v : Version} {r : Range}
    (h : Version.parse text = .ok v) : parse (relation.sign ++ text) = .ok r ↔
      (relation = .compatible → 2 ≤ v.release.length) ∧
        r = ⟨String.ofList (relation.sign.toList ++ trimEnd text.toList),
          [⟨relation, String.ofList (trim text.toList), v, false⟩]⟩ := by
  have hread := Outcome.of_mapError h
  have hone : (relation = .compatible → 2 ≤ v.release.length) → parse (relation.sign ++ text) =
      .ok ⟨String.ofList (relation.sign.toList ++ trimEnd text.toList),
        [⟨relation, String.ofList (trim text.toList), v, false⟩]⟩ := fun hlong =>
    parse_term _ relation String.toList_append (Clause.read_bound relation hread hlong)
  constructor
  · intro hr
    have hlong : relation = .compatible → 2 ≤ v.release.length := by
      rintro rfl
      have hequal : Without ['=', ','] text.toList :=
        (Version.without_of_read hread).of_subset (by decide)
      obtain ⟨c, hc⟩ := exists_clause_of_parse (String.toList_append) hequal hr
      have hbound := Clause.version_of_read rfl hc
      obtain ⟨hwritten, hrelation, -⟩ := Clause.of_read hc
      rw [Except.ok.inj (hread.symm.trans hbound)]
      exact hwritten.compatible hrelation
    exact ⟨hlong, Except.ok.inj (hr.symm.trans (hone hlong))⟩
  · rintro ⟨hlong, rfl⟩
    exact hone hlong

/-- What the range of a relation and a version says about the version. -/
theorem accepts_bound (relation : Relation) {text : String} {v : Version} {r : Range}
    (h : Version.parse text = .ok v) (hr : parse (relation.sign ++ text) = .ok r) :
    r.accepts text = .ok (relation.isReflexive ^^ (relation.countsLabel && v.label.isSome)) := by
  obtain ⟨-, rfl⟩ := (parse_bound_iff relation h).1 hr
  rw [accepts, h, ← Clause.admits_self relation v text]
  exact congrArg Except.ok (Bool.and_true _)

/-- What a shorthand of a version says about the version: no more than its lower bound. -/
theorem accepts_shorthand (kind : Shorthand) {text : String} {v : Version} {r : Range}
    (h : Version.parse text = .ok v) (hr : parse (kind.sign ++ text) = .ok r) :
    r.accepts text = .ok v.label.isNone := by
  have hword := Version.readable_of_read (Outcome.of_mapError h)
  obtain ⟨n, hn⟩ := kind.exists_pivot hword.release_ne_nil
  have hlow := Clause.admits_self .atLeast v text
  have hseries := Version.releaseStartsWith_take v.release (kind.pivot v.release + 1)
  rw [accepts, h, clauses_of_parse_shorthand hr h hn]
  have hupper := kind.all_admits_upper text.toList hn (String.ofList (trim text.toList))
    (String.ofList (trim text.toList)) "" v text
  refine congrArg Except.ok (hupper.trans ?_)
  simp only [List.all_cons, List.all_nil, Bool.and_true, hlow]
  simp [Clause.admits, Clause.meets, Version.ofRelease, hseries, Relation.isReflexive,
    Relation.countsLabel]

/-- The ranges of a version are right about the version exactly if it has no local label.  With a
label the lower bounds and the shorthands refuse it, and `<` accepts it; the other relations are right
also then. -/
theorem bounded_iff (text : String) (v : Version) (h : Version.parse text = .ok v) :
    (Bounded text ↔ v.label = none) ∧
    (∀ relation : Relation, ((∃ r, parse (relation.sign ++ text) = .ok r) ↔
        (relation = .compatible → 2 ≤ v.release.length)) ∧
      ∀ r, parse (relation.sign ++ text) = .ok r → r.accepts text =
        .ok (relation.isReflexive ^^ (relation.countsLabel && v.label.isSome))) ∧
    ∀ (kind : Shorthand) r, parse (kind.sign ++ text) = .ok r →
      r.accepts text = .ok v.label.isNone := by
  refine ⟨⟨fun hbounded => ?_, fun hlabel => ⟨fun relation r hr => ?_, fun kind r hr => ?_⟩⟩,
    fun relation => ⟨⟨?_, fun hlong => ?_⟩, fun r => accepts_bound relation h⟩,
    fun kind r => accepts_shorthand kind h⟩
  · obtain ⟨r, hr⟩ : ∃ r, parse (Relation.atLeast.sign ++ text) = .ok r :=
      ⟨_, (parse_bound_iff .atLeast h).2 ⟨nofun, rfl⟩⟩
    have htrue := (accepts_bound .atLeast h hr).symm.trans (hbounded.1 .atLeast r hr)
    simpa [Relation.isReflexive, Relation.countsLabel] using htrue
  · rw [accepts_bound relation h hr, hlabel]
    simp
  · rw [accepts_shorthand kind h hr, hlabel]
    rfl
  · rintro ⟨r, hr⟩
    exact ((parse_bound_iff relation h).1 hr).1
  · exact ⟨_, (parse_bound_iff relation h).2 ⟨hlong, rfl⟩⟩

theorem bounded_iff_labels :
    Bounded "1!1.0rc1.post2.dev3" ∧ ¬Bounded "1.0+local" ∧
      (∃ r, parse "~=1.0+local" = .ok r ∧ r.accepts "1.0+local" = .ok false) ∧
      ∃ r, parse "<1.0+local" = .ok r ∧ r.accepts "1.0+local" = .ok true := by
  have hplain : Version.parse "1!1.0rc1.post2.dev3" =
      .ok ⟨1, [1, 0], some (.candidate, 1), some 2, some 3, none⟩ := by decide +kernel
  have hlocal : Version.parse "1.0+local" = .ok ⟨0, [1, 0], none, none, none, some "local"⟩ := by
    decide +kernel
  obtain ⟨hbounded, -, -⟩ := bounded_iff "1!1.0rc1.post2.dev3" _ hplain
  obtain ⟨hunbounded, hanswers, -⟩ := bounded_iff "1.0+local" _ hlocal
  obtain ⟨hread, hcompatible⟩ := hanswers .compatible
  obtain ⟨hread', hless⟩ := hanswers .less
  obtain ⟨r, hr⟩ := hread.2 fun _ => by decide
  obtain ⟨r', hr'⟩ := hread'.2 nofun
  exact ⟨hbounded.2 rfl, fun h => absurd (hunbounded.1 h) nofun, ⟨r, hr, hcompatible r hr⟩,
    r', hr', hless r' hr'⟩

/-- Not every version is bounded: one with a local label is refused by its own lower bound. -/
theorem not_bounded : ¬∀ text, (∃ v, Version.parse text = .ok v) → Bounded text := by
  intro h
  have hlocal : Version.parse "1.0+local" = .ok ⟨0, [1, 0], none, none, none, some "local"⟩ := by
    decide +kernel
  obtain ⟨hrelations, -⟩ := h "1.0+local" ⟨_, hlocal⟩
  have hr := (parse_bound_iff .atLeast hlocal).2 ⟨nofun, rfl⟩
  have hrefused := accepts_bound .atLeast hlocal hr
  rw [hrelations .atLeast _ hr] at hrefused
  exact absurd (Except.ok.inj hrefused) (by decide)

end Range

end Requisite
