import Mathlib.Order.Interval.Set.OrdConnected
import Requisite.Proofs.Range.Terms

/-!
# Ranges look at candidates as the order does

All clauses but those of `===` see of a candidate only what the order of versions sees: candidates in
the same place are let through alike, whatever their spelling.  A clause that compares with a plain
release lets through what a monotone view of the candidate sends into an interval.  Such clauses, any
number of them, leave no hole in a range.

* `Clause.ComparesRelease` — a bound of the order whose version is a plain release;
* **`Version.releaseStartsWith_congr`** — what a release begins with is a matter of its significant
  numbers;
* **`Clause.admits_same`** — a clause does not tell apart candidates in the same place;
* **`Clause.admits_above`** — above a release lie the versions of later releases;
* **`Clause.ordConnected_admitted`** — the candidates of one clause have no hole;
* **`Range.accepts_same_place`** — whether a text is accepted depends on the version it denotes;
* **`Range.contains_between`** — between two versions of a range lies no version outside of it.
-/

namespace Requisite

namespace Version

/-! ### Versions in the same place -/

theorem same_iff_labelledKey {a b : Version} : a.same b = true ↔ a.labelledKey = b.labelledKey := by
  rw [same_iff, (compares_key_label a b).eq_eq]

/-- Versions in the same place compare alike. -/
theorem compare_same {a a' b b' : Version} (ha : a.same a' = true) (hb : b.same b' = true) :
    a.compare b = a'.compare b' := by
  have h := compares_key_label a b
  rw [same_iff_labelledKey.1 ha, same_iff_labelledKey.1 hb] at h
  exact h.inj (compares_key_label a' b')

theorem same_self (v : Version) : v.same v = true :=
  same_iff.2 v.compare_self

/-- Without their labels, versions in the same place are in the same place. -/
theorem same_common {a b : Version} (h : a.same b = true) : a.common.same b.common = true := by
  obtain ⟨hepoch, hrelease, hpre, hpost, hdev, -⟩ :=
    labelledKey_eq_iff.1 (same_iff_labelledKey.1 h)
  exact same_iff_labelledKey.2
    (labelledKey_eq_iff.2 ⟨hepoch, hrelease, hpre, hpost, hdev, rfl⟩)

/-- Zeros at the end of a release make no difference to what it begins with. -/
theorem releaseStartsWith_congr {xs ys : List ℕ} (h : significant xs = significant ys)
    (lead : List ℕ) : releaseStartsWith xs lead = releaseStartsWith ys lead := by
  rcases List.eq_nil_or_concat' lead with rfl | ⟨ns, n, rfl⟩
  · simp only [releaseStartsWith_nil]
  · rw [Bool.eq_iff_iff, releaseStartsWith_iff, releaseStartsWith_iff, h]

end Version

namespace Clause

open Version

/-- A clause that does not ask for a text does not tell apart versions in the same place. -/
theorem admits_same {c : Clause} (hc : c.relation ≠ .verbatim) {a b : Version}
    (h : a.same b = true) (raw raw' : String) : c.admits a raw = c.admits b raw' := by
  obtain ⟨hepoch, hrelease, hpre, hpost, hdev, -⟩ :=
    labelledKey_eq_iff.1 (same_iff_labelledKey.1 h)
  have hstart := releaseStartsWith_congr hrelease
  have hbound := same_self c.bound
  have hplace : a.place = b.place := by rw [place, place, hepoch, hrelease]
  have hsame : a.sameRelease c.bound = b.sameRelease c.bound := by
    rw [Bool.eq_iff_iff, sameRelease_iff, sameRelease_iff, hplace]
  have hmeets : c.meets a = c.meets b := by
    simp only [meets, Version.same, compare_same (same_common h) hbound, compare_same h hbound,
      hepoch, hstart]
  unfold admits
  cases hrelation : c.relation with
  | equal => exact hmeets
  | notEqual => exact congrArg (!·) hmeets
  | atMost => simp only [atMost, compare_same (same_common h) hbound]
  | atLeast => simp only [atMost, compare_same hbound (same_common h)]
  | less =>
    simp only [before, isPrerelease, compare_same (same_common h) hbound, hpre, hdev, hsame]
  | greater =>
    simp only [before, isPostrelease, compare_same hbound (same_common h), hpost, hsame]
  | compatible =>
    simp only [atMost, compare_same hbound (same_common h), hepoch, hstart]
  | verbatim => exact absurd hrelation hc

end Clause

namespace Range

/-- Whether a text is accepted depends on the version that it denotes and not on its spelling: texts
of versions in the same place are accepted or not accepted alike, and so are the versions in their
normal spelling. -/
theorem accepts_same_place {r : Range} (hr : ∀ c ∈ r.clauses, c.relation ≠ .verbatim)
    {s t : String} {a b : Version} (hs : Version.parse s = .ok a) (ht : Version.parse t = .ok b)
    (hab : a.same b = true) :
    r.accepts s = .ok (r.contains a) ∧ r.accepts t = .ok (r.contains b) ∧
      r.contains a = r.contains b := by
  -- One statement for all three: the text of a candidate may be exchanged along with its version.
  have hall : ∀ {v w : Version} (raw raw' : String), v.same w = true →
      (r.clauses.all fun c => c.admits v raw) = r.clauses.all fun c => c.admits w raw' := by
    intro v w raw raw' h
    rw [Bool.eq_iff_iff, List.all_eq_true, List.all_eq_true]
    exact forall₂_congr fun c hc => by rw [Clause.admits_same (hr c hc) h raw raw']
  refine ⟨?_, ?_, hall _ _ hab⟩
  · rw [accepts, hs]
    exact congrArg Except.ok (hall _ _ (Version.same_self a))
  · rw [accepts, ht]
    exact congrArg Except.ok (hall _ _ (Version.same_self b))

/-- A series and a lower bound, whose candidate is spelled in two ways. -/
theorem accepts_same_place_candidate :
    let series : Clause := ⟨.equal, "1!1.2", Version.ofRelease 1 [1, 2], true⟩
    let bound : Version := { Version.ofRelease 1 [1, 2, 0] with pre := some (.candidate, 1) }
    let r : Range := ⟨"==1!1.2.*,>=1!1.2.0rc1", [series, ⟨.atLeast, "1!1.2.0rc1", bound, false⟩]⟩
    parse "==1!1.2.*,>=1!1.2.0rc1" = .ok r ∧
      Version.parse " V01!1.2-Preview_2-3+L" = Version.parse "1!1.2rc2.post3+l" ∧
        r.accepts " V01!1.2-Preview_2-3+L" = .ok true ∧
          r.accepts "1!1.2.0.0.c2.r3+l" = .ok true := by
  intro series bound r
  have hr : parse "==1!1.2.*,>=1!1.2.0rc1" = .ok r := by decide
  have hs : Version.parse " V01!1.2-Preview_2-3+L" =
      .ok ⟨1, [1, 2], some (.candidate, 2), some 3, none, some "l"⟩ := by decide
  have ht : Version.parse "1!1.2.0.0.c2.r3+l" =
      .ok ⟨1, [1, 2, 0, 0], some (.candidate, 2), some 3, none, some "l"⟩ := by decide
  obtain ⟨hs', ht', -⟩ := accepts_same_place (r := r) (by decide) hs ht (by decide)
  refine ⟨hr, hs.trans (by decide), hs'.trans ?_, ht'.trans ?_⟩
  · decide
  · decide

end Range

/-! ### Cuts of the order -/

namespace Version

/-- Versions are ordered as they compare.  Versions in the same place are not equal, so this is not a
partial order. -/
instance : Preorder Version :=
  Preorder.lift labelledKey

theorem le_iff_atMost {a b : Version} : a ≤ b ↔ a.atMost b = true := by
  rw [atMost, bne_iff_ne, (compares_key_label a b).ne_gt]
  rfl

theorem monotone_place : Monotone place :=
  fun _ _ h => place_le_of_atMost (le_iff_atMost.1 h)

theorem monotone_epoch : Monotone epoch := by
  intro a b h
  rcases Prod.Lex.toLex_le_toLex.1 (monotone_place h) with hlt | ⟨heq, -⟩
  · exact hlt.le
  · exact heq.le

/-- Labels come last in the order, so leaving them out keeps it. -/
theorem monotone_common : Monotone common := by
  intro a b h
  have hkey : a.key ≤ b.key := by
    rcases Prod.Lex.toLex_le_toLex.1 h with hlt | ⟨heq, -⟩
    · exact hlt.le
    · exact heq.le
  refine Prod.Lex.toLex_le_toLex.2 ?_
  exact hkey.lt_or_eq.imp_right fun heq => ⟨heq, le_rfl⟩

/-- A version of a release that is no post-release and has no label does not come behind the release
itself. -/
theorem suffixPlace_le_of_not_isPostrelease {v : Version} (h : v.isPostrelease = false) (epoch : ℕ)
    (release : List ℕ) : v.common.suffixPlace ≤ (ofRelease epoch release).suffixPlace := by
  have hpost : v.post = none := by simpa [isPostrelease] using h
  have hplace : v.common.prePlace ≤ (ofRelease epoch release).prePlace := le_top
  have hdev : absentLast v.dev ≤ absentLast (none : Option ℕ) := le_top
  refine Prod.Lex.toLex_le_toLex.2 (hplace.lt_or_eq.imp_right fun heq => ⟨heq, ?_⟩)
  refine Prod.Lex.toLex_le_toLex.2 (Or.inr ⟨congrArg absentFirst hpost, ?_⟩)
  exact Prod.Lex.toLex_le_toLex.2 (hdev.lt_or_eq.imp_right fun heq => ⟨heq, le_rfl⟩)

end Version

namespace Clause

open Version

/-- Above a release lie the versions of later releases. -/
theorem admits_above {text raw : String} {epoch : ℕ} {release : List ℕ} {wildcard : Bool}
    {v : Version} :
    admits ⟨.greater, text, ofRelease epoch release, wildcard⟩ v raw = true ↔
      (ofRelease epoch release).place < v.place := by
  show ((ofRelease epoch release).before v.common &&
    !(v.isPostrelease && true && v.sameRelease (ofRelease epoch release))) = true ↔ _
  rw [Bool.and_true, Bool.and_eq_true, Bool.not_eq_true', before_iff, place_common]
  constructor
  · rintro ⟨hlt | ⟨hplace, hsuffix⟩, hpost⟩
    · exact hlt
    · rw [sameRelease_iff.2 hplace.symm, Bool.and_true] at hpost
      exact absurd hsuffix (suffixPlace_le_of_not_isPostrelease hpost epoch release).not_gt
  · intro hlt
    have hother : v.sameRelease (ofRelease epoch release) = false :=
      Bool.eq_false_iff.2 fun hsame => hlt.ne' (sameRelease_iff.1 hsame)
    exact ⟨Or.inl hlt, by rw [hother, Bool.and_false]⟩

/-- A clause that compares by the order, with a version without suffixes. -/
structure ComparesRelease (c : Clause) : Prop where
  relation : c.relation ∈ [.atLeast, .greater, .atMost, .less, .compatible]
  pre : c.bound.pre = none
  post : c.bound.post = none
  dev : c.bound.dev = none
  label : c.bound.label = none

/-- The versions that a clause lets through. -/
def admitted (c : Clause) (raw : String) : Set Version :=
  { v | c.admits v raw = true }

/-- The versions of one epoch whose releases begin alike have no hole between them. -/
theorem ordConnected_series (epoch : ℕ) (lead : List ℕ) : Set.OrdConnected
    { v : Version | (v.epoch == epoch && releaseStartsWith v.release lead) = true } := by
  rcases List.eq_nil_or_concat' lead with rfl | ⟨ns, n, rfl⟩
  · have hset : { v : Version | (v.epoch == epoch && releaseStartsWith v.release []) = true } =
        Set.preimage Version.epoch {epoch} := by
      ext v
      simp [releaseStartsWith_nil]
    rw [hset]
    exact Set.ordConnected_singleton.preimage_mono monotone_epoch
  · have hset :
        { v : Version | (v.epoch == epoch && releaseStartsWith v.release (ns ++ [n])) = true } =
          Set.preimage place (Set.Ico (ofRelease epoch (ns ++ [n])).place
            (ofRelease epoch (ns ++ [n + 1])).place) := by
      ext v
      exact inSeries_iff
    rw [hset]
    exact Set.ordConnected_Ico.preimage_mono monotone_place

theorem ordConnected_atLeast (bound : Version) :
    Set.OrdConnected { v : Version | bound.atMost v.common = true } := by
  have hset : { v : Version | bound.atMost v.common = true } =
      Set.preimage common (Set.Ici bound) := by
    ext v
    exact le_iff_atMost.symm
  rw [hset]
  exact Set.ordConnected_Ici.preimage_mono monotone_common

/-- Each comparison with a release is the preimage of an interval under a monotone view of the
version: the version without its label, or the place of its release. -/
theorem ordConnected_admitted {c : Clause} (h : c.ComparesRelease) (raw : String) :
    (c.admitted raw).OrdConnected := by
  obtain ⟨relation, text, bound, wildcard⟩ := c
  obtain ⟨hrelation, hpre, hpost, hdev, hlabel⟩ := h
  obtain ⟨epoch, release, rfl⟩ : ∃ epoch release, bound = ofRelease epoch release :=
    ⟨bound.epoch, bound.release, eq_ofRelease_iff.2 ⟨hpre, hpost, hdev, hlabel⟩⟩
  simp only [List.mem_cons, List.not_mem_nil, or_false] at hrelation
  rcases hrelation with rfl | rfl | rfl | rfl | rfl
  · exact ordConnected_atLeast (ofRelease epoch release)
  · have hset : admitted ⟨.greater, text, ofRelease epoch release, wildcard⟩ raw =
        Set.preimage place (Set.Ioi (ofRelease epoch release).place) := by
      ext v
      exact admits_above
    rw [hset]
    exact Set.ordConnected_Ioi.preimage_mono monotone_place
  · have hset : admitted ⟨.atMost, text, ofRelease epoch release, wildcard⟩ raw =
        Set.preimage common (Set.Iic (ofRelease epoch release)) := by
      ext v
      exact le_iff_atMost.symm
    rw [hset]
    exact Set.ordConnected_Iic.preimage_mono monotone_common
  · have hset : admitted ⟨.less, text, ofRelease epoch release, wildcard⟩ raw =
        Set.preimage place (Set.Iio (ofRelease epoch release).place) := by
      ext v
      exact @admits_below text raw epoch release v
    rw [hset]
    exact Set.ordConnected_Iio.preimage_mono monotone_place
  · have hset : admitted ⟨.compatible, text, ofRelease epoch release, wildcard⟩ raw =
        { v : Version | (ofRelease epoch release).atMost v.common = true } ∩
          { v : Version |
            (v.epoch == epoch && releaseStartsWith v.release release.dropLast) = true } := by
      ext v
      simp [admitted, admits, ofRelease, Bool.and_assoc]
    rw [hset]
    exact (ordConnected_atLeast _).inter (ordConnected_series epoch release.dropLast)

end Clause

namespace Range

/-- Ranges of comparisons with plain releases have no holes: a version between two versions of the
range belongs to it. -/
theorem contains_between {r : Range} (hr : ∀ c ∈ r.clauses, c.ComparesRelease) {a b c : Version}
    (hab : a.atMost b = true) (hbc : b.atMost c = true) (ha : r.contains a = true)
    (hc : r.contains c = true) : r.contains b = true := by
  rw [contains, List.all_eq_true] at ha hc ⊢
  intro clause hclause
  have hcompares := hr clause hclause
  have hrelation : clause.relation ≠ .verbatim := by
    intro hverbatim
    have hmem := hcompares.relation
    rw [hverbatim] at hmem
    exact absurd hmem (by decide)
  -- The three versions are written differently, but none of these clauses looks at that.
  have hraw : ∀ v : Version, clause.admits v (toString v) = clause.admits v (toString b) := fun v =>
    Clause.admits_same hrelation (Version.same_self v) _ _
  have hconnected := Clause.ordConnected_admitted hcompares (toString b)
  refine hconnected.out ?_ ?_ ⟨Version.le_iff_atMost.2 hab, Version.le_iff_atMost.2 hbc⟩
  · exact (hraw a).symm.trans (ha clause hclause)
  · exact (hraw c).symm.trans (hc clause hclause)

/-- A version with a label between two releases of a series. -/
theorem contains_between_labelled :
    let r : Range := ⟨"~=1.2,>1.2,<1.9", [⟨.compatible, "1.2", Version.ofRelease 0 [1, 2], false⟩,
      ⟨.greater, "1.2", Version.ofRelease 0 [1, 2], false⟩,
      ⟨.less, "1.9", Version.ofRelease 0 [1, 9], false⟩]⟩
    let low : Version := { Version.ofRelease 0 [1, 3] with dev := some 0 }
    let middle : Version := { Version.ofRelease 0 [1, 3, 0] with post := some 1, label := some "l" }
    let high : Version := { Version.ofRelease 0 [1, 8, 1] with pre := some (.alpha, 1) }
    parse "~=1.2,>1.2,<1.9" = .ok r ∧ low.atMost middle = true ∧ middle.atMost high = true ∧
      r.contains low = true ∧ r.contains high = true ∧ r.contains middle = true := by
  intro r low middle high
  have hr : ∀ c ∈ r.clauses, c.ComparesRelease := by
    intro c hc
    simp only [r, List.mem_cons, List.not_mem_nil, or_false] at hc
    rcases hc with rfl | rfl | rfl <;> exact ⟨by decide, rfl, rfl, rfl, rfl⟩
  have hlow : low.atMost middle = true := by decide
  have hhigh : middle.atMost high = true := by decide
  have ha : r.contains low = true := by decide
  have hc : r.contains high = true := by decide
  exact ⟨by decide, hlow, hhigh, ha, hc, contains_between hr hlow hhigh ha hc⟩

/-- Below a post-release lie the releases before it and its own release, but not the candidates of its
own release that come between them. -/
example :
    let r : Range := ⟨"<1.0.post1", [⟨.less, "1.0.post1",
      { Version.ofRelease 0 [1, 0] with post := some 1 }, false⟩]⟩
    r.contains (.ofRelease 0 [0, 9]) = true ∧ r.contains (.ofRelease 0 [1, 0]) = true ∧
      r.contains { Version.ofRelease 0 [1, 0] with pre := some (.candidate, 1) } = false := by
  decide

end Range

end Requisite
