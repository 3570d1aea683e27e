import Requisite.Proofs.Range.Terms

/-!
# Wildcards mean an interval

A wildcard stands for the series of its release, and so for the versions from the earliest one of that
release up to the earliest one of the next.  The compatible releases of a version are those of its
series, without the last number, that are not before it.  The bound of a wildcard may be any version:
its suffixes are read, and then left out of account.

* **`Clause.all_admits_between`** — a wildcard lets through what lies between two earliest versions;
* **`Clause.all_admits_compatible`** — a compatible release lets through what its bound and a wildcard
  do;
* **`Range.wildcard_intervals`** — the same of the ranges as they are written;
* **`Range.exists_version_of_wildcard`** — what stands before a wildcard is a version;
* **`Range.wildcard_ignores_suffixes`** — its suffixes make no difference.
-/

namespace Requisite

open Text Version Spelling

namespace Clause

/-- Before the earliest version of a release lie the versions of earlier releases. -/
theorem admits_before_earliest {text raw : String} {epoch : ℕ} {release : List ℕ} {v : Version} :
    admits ⟨.less, text, earliest epoch release, false⟩ v raw = true ↔
      v.place < (ofRelease epoch release).place := by
  have hpre : (earliest epoch release).isPrerelease = true := rfl
  rw [← place_common v, ← before_earliest_iff]
  simp [admits, hpre]

/-- Not before the earliest version of a release lie the versions of this release and of later ones. -/
theorem admits_from_earliest {text raw : String} {epoch : ℕ} {release : List ℕ} {v : Version} :
    admits ⟨.atLeast, text, earliest epoch release, false⟩ v raw = true ↔
      (ofRelease epoch release).place ≤ v.place :=
  earliest_atMost_iff (v := v.common)

/-- A wildcard lets through the versions from the earliest one of its release up to that of the next
release. -/
theorem all_admits_between (series low high : String) (epoch : ℕ) (ns : List ℕ) (n : ℕ) (v : Version)
    (raw : String) :
    ([⟨.equal, series, ofRelease epoch (ns ++ [n]), true⟩].all fun c : Clause => c.admits v raw) =
      [⟨.atLeast, low, earliest epoch (ns ++ [n]), false⟩,
        ⟨.less, high, earliest epoch (ns ++ [n + 1]), false⟩].all
          fun c : Clause => c.admits v raw := by
  simp only [List.all_cons, List.all_nil, Bool.and_true]
  rw [Bool.eq_iff_iff, Bool.and_eq_true, admits_series, admits_from_earliest, admits_before_earliest]

/-- A compatible release lets through what its bound and the wildcard of its series do. -/
theorem all_admits_compatible (text low series : String) (bound v : Version) (raw : String) :
    ([⟨.compatible, text, bound, false⟩].all fun c : Clause => c.admits v raw) =
      [⟨.atLeast, low, bound, false⟩,
        ⟨.equal, series, ofRelease bound.epoch bound.release.dropLast, true⟩].all
          fun c : Clause => c.admits v raw := by
  simp [admits, meets, ofRelease, Bool.and_assoc]

/-- Under a wildcard the suffixes of the bound do not count. -/
theorem all_admits_wildcard (relation : Relation) (hrelation : relation.isEquality = true)
    (text text' : String) (bound v : Version) (raw : String) :
    ([⟨relation, text, bound, true⟩].all fun c : Clause => c.admits v raw) =
      [⟨relation, text', ofRelease bound.epoch bound.release, true⟩].all
        fun c : Clause => c.admits v raw := by
  cases relation <;> first | rfl | cases hrelation

end Clause

namespace Range

/-! ### Intervals -/

theorem isPlain_of_parse {text : String} {epoch : ℕ} {release : List ℕ}
    (hblank : Blankless text.toList) (h : Version.parse text = .ok (ofRelease epoch release)) :
    IsPlain text.toList := by
  rw [← trim_of_blankless hblank]
  exact (isPlain_iff (Outcome.of_mapError h)).2 rfl

theorem eq_ofRelease_of_isPlain {text : String} {v : Version} (hplain : IsPlain text.toList)
    (h : Version.parse text = .ok v) : v = ofRelease v.epoch v.release := by
  refine (isPlain_iff (Outcome.of_mapError h)).1 ?_
  rwa [trim_of_blankless hplain.blankless]

theorem alike_between {text next : String} {epoch : ℕ} {ns : List ℕ} {n : ℕ}
    (htext : IsPlain text.toList) (hnext : IsPlain next.toList)
    (h : Version.parse text = .ok (ofRelease epoch (ns ++ [n])))
    (h' : Version.parse next = .ok (ofRelease epoch (ns ++ [n + 1]))) :
    Alike ("==" ++ text ++ ".*") (">=" ++ text ++ ".dev0,<" ++ next ++ ".dev0") := by
  obtain ⟨written, hseries⟩ := parse_wildcard .equal rfl h
  obtain ⟨written', hbetween⟩ := parse_pair (">=" ++ text ++ ".dev0,<" ++ next ++ ".dev0")
    .atLeast .less (by simp [Relation.sign])
    (Clause.read_bound .atLeast (read_append_dev htext.blankless (Outcome.of_mapError h)) nofun)
    (Clause.read_bound .less (read_append_dev hnext.blankless (Outcome.of_mapError h')) nofun)
  exact alike_of_admits hseries hbetween (Clause.all_admits_between _ _ _ epoch ns n)

theorem alike_compatible {text series : String} {v : Version} (h : Version.parse text = .ok v)
    (hlong : 2 ≤ v.release.length)
    (hseries : Version.parse series = .ok (ofRelease v.epoch v.release.dropLast)) :
    Alike ("~=" ++ text) (">=" ++ text ++ ",==" ++ series ++ ".*") := by
  have hcompatible := parse_term ("~=" ++ text) .compatible (by simp [Relation.sign])
    (Clause.read_bound .compatible (Outcome.of_mapError h) fun _ => hlong)
  obtain ⟨written, hterms⟩ := parse_series h hseries
  exact alike_of_admits hcompatible hterms (Clause.all_admits_compatible _ _ _ v)

/-- What `!=` lets through under a wildcard is what `==` does not. -/
theorem notEqual_wildcard {text : String} {v : Version} (h : Version.parse text = .ok v) :
    ∃ equal notEqual, parse ("==" ++ text ++ ".*") = .ok equal ∧
      parse ("!=" ++ text ++ ".*") = .ok notEqual ∧
        ∀ candidate, notEqual.accepts candidate = (equal.accepts candidate).map (!·) := by
  obtain ⟨written, hequal⟩ := parse_wildcard .equal rfl h
  obtain ⟨written', hnotEqual⟩ := parse_wildcard .notEqual rfl h
  refine ⟨_, _, hequal, hnotEqual, fun candidate => ?_⟩
  unfold accepts
  cases Version.parse candidate with
  | error e => rfl
  | ok w =>
    show Except.ok _ = Except.ok _
    simp only [List.all_cons, List.all_nil, Bool.and_true]
    rfl

/-- A wildcard accepts the candidates from the earliest version of its release up to the earliest one
of the next release, and its negation the other ones that are versions.  A compatible release accepts
the candidates that are not before its bound and lie in the series of its release without the last
number. -/
theorem wildcard_intervals :
    (∀ (text : String) (v : Version) (ns : List ℕ) (n : ℕ), IsPlain text.toList →
      Version.parse text = .ok v → v.release = ns ++ [n] → n < maxWord →
      (∃ next, IsPlain next.toList ∧
        Version.parse next = .ok (ofRelease v.epoch (ns ++ [n + 1]))) ∧
      (∀ next, IsPlain next.toList →
        Version.parse next = .ok (ofRelease v.epoch (ns ++ [n + 1])) →
        Alike ("==" ++ text ++ ".*") (">=" ++ text ++ ".dev0,<" ++ next ++ ".dev0")) ∧
      ∃ equal notEqual, parse ("==" ++ text ++ ".*") = .ok equal ∧
        parse ("!=" ++ text ++ ".*") = .ok notEqual ∧
          ∀ candidate, notEqual.accepts candidate = (equal.accepts candidate).map (!·)) ∧
    ∀ (text : String) (v : Version), Version.parse text = .ok v → 2 ≤ v.release.length →
      (∃ series, Version.parse series = .ok (ofRelease v.epoch v.release.dropLast)) ∧
      ∀ series, Version.parse series = .ok (ofRelease v.epoch v.release.dropLast) →
        Alike ("~=" ++ text) (">=" ++ text ++ ",==" ++ series ++ ".*") := by
  refine ⟨fun text v ns n hplain hv hrelease hn => ?_, fun text v hv hlong => ?_⟩
  · have hword := readable_of_read (Outcome.of_mapError hv)
    have hnumbers := hword.release
    rw [hrelease, List.forall_mem_append] at hnumbers
    have hnext : ∀ m ∈ ns ++ [n + 1], m ≤ maxWord :=
      List.forall_mem_append.2 ⟨hnumbers.1, List.forall_mem_singleton.2 hn⟩
    refine ⟨?_, fun next hplain' hnext => ?_, notEqual_wildcard hv⟩
    · obtain ⟨next, hblank, hparse⟩ := Version.exists_text hword.epoch (by simp) hnext
      exact ⟨next, isPlain_of_parse hblank hparse, hparse⟩
    · rw [eq_ofRelease_of_isPlain hplain hv, hrelease] at hv
      exact alike_between hplain hplain' hv hnext
  · have hword := readable_of_read (Outcome.of_mapError hv)
    have hne : v.release.dropLast ≠ [] := by
      rw [← List.length_pos_iff, List.length_dropLast]
      omega
    obtain ⟨series, -, hseries⟩ := Version.exists_text hword.epoch hne
      fun m hm => hword.release m (List.dropLast_subset _ hm)
    exact ⟨⟨series, hseries⟩, fun series => alike_compatible hv hlong⟩

/-- The series of `1!1.2`, and the releases that are compatible with a candidate, each with a version
that is accepted and one that is not. -/
theorem wildcard_intervals_epoch :
    Alike "==1!1.2.*" ">=1!1.2.dev0,<1!1.3.dev0" ∧
      Alike "~=1!1.2.0rc1+l" ">=1!1.2.0rc1+l,==1!1.2.*" ∧
        (∃ r, parse "==1!1.2.*" = .ok r ∧ r.accepts "1!1.2.5" = .ok true ∧
          r.accepts "1!1.3" = .ok false) ∧
        ∃ r, parse "~=1!1.2.0rc1+l" = .ok r ∧ r.accepts "1!1.2.5" = .ok true ∧
          r.accepts "1!1.2.dev0" = .ok false := by
  have hrelease : Version.parse "1!1.2" = .ok (ofRelease 1 [1, 2]) := by decide +kernel
  have hnext : Version.parse "1!1.3" = .ok (ofRelease 1 [1, 3]) := by decide +kernel
  have hbound : Version.parse "1!1.2.0rc1+l" =
      .ok ⟨1, [1, 2, 0], some (.candidate, 1), none, none, some "l"⟩ := by decide +kernel
  have hplain : ∀ {text : String} {ns : List ℕ}, Blankless text.toList →
      Version.parse text = .ok (ofRelease 1 ns) → IsPlain text.toList := isPlain_of_parse
  obtain ⟨hwildcard, hcompatible⟩ := wildcard_intervals
  obtain ⟨-, hbetween, -⟩ :=
    hwildcard "1!1.2" _ [1] 2 (hplain (by decide) hrelease) hrelease rfl (by decide)
  obtain ⟨-, hseries⟩ := hcompatible "1!1.2.0rc1+l" _ hbound (by decide)
  exact ⟨hbetween "1!1.3" (hplain (by decide) hnext) hnext, hseries "1!1.2" hrelease,
    ⟨_, rfl, by decide +kernel, by decide +kernel⟩, ⟨_, rfl, by decide +kernel, by decide +kernel⟩⟩

/-! ### Suffixes before a wildcard -/

theorem trim_wildcard (relation : Relation) (cs : List Char) :
    trim (relation.sign.toList ++ (cs ++ ".*".toList)) =
      relation.sign.toList ++ (cs ++ ".*".toList) := by
  have hend : trimEnd ".*".toList = ".*".toList := rfl
  rw [trim_word relation.blankless_sign relation.sign_ne_nil,
    trimEnd_append cs (by rw [hend]; decide), hend]

/-- The sign of an equality is read as its relation, or as part of the sign of `===`. -/
theorem split?_equality {relation : Relation} (hrelation : relation.isEquality = true)
    (cs : List Char) : Relation.split? (relation.sign.toList ++ cs) = some (relation, cs) ∨
      ∃ rest, cs = '=' :: rest ∧
        Relation.split? (relation.sign.toList ++ cs) = some (.verbatim, rest) := by
  cases relation with
  | equal =>
    cases cs with
    | nil => exact Or.inl rfl
    | cons c cs =>
      by_cases hc : c = '='
      · rw [hc]
        exact Or.inr ⟨cs, rfl, rfl⟩
      · refine Or.inl ?_
        simp [Relation.split?, Relation.signs, Relation.sign, after?, strip?, hc]
  | notEqual => exact Or.inl rfl
  | _ => cases hrelation

/-- What stands between the sign of an equality and a wildcard is a version. -/
theorem version_of_ofTerm {relation : Relation} (hrelation : relation.isEquality = true)
    {cs : List Char} {c : Clause}
    (h : Clause.ofTerm (relation.sign.toList ++ (cs ++ ".*".toList)) = .ok c) :
    ∃ v, Version.read cs = .ok v := by
  obtain ⟨d, ds, hcons⟩ := List.exists_cons_of_ne_nil
    (List.append_ne_nil_of_left_ne_nil relation.sign_ne_nil (cs ++ ".*".toList))
  have hsplit := split?_equality hrelation (cs ++ ".*".toList)
  rw [hcons] at h hsplit
  rw [Clause.ofTerm] at h
  rcases hsplit with hown | ⟨rest, hrest, hverbatim⟩
  · rw [hown] at h
    obtain ⟨v, hv, -⟩ := Clause.read_eq_ok.1 h
    rw [Clause.trim_append_wildcard, Clause.bodyAndWildcard_append hrelation] at hv
    have hread := Outcome.of_mapError hv
    rw [String.toList_ofList, Version.read_trimStart] at hread
    exact ⟨v, hread⟩
  · -- The bound of `===` takes no wildcard, and no version has a star in it.
    rw [hverbatim] at h
    have hstar : '*' ∈ rest := by
      cases cs with
      | nil => cases hrest
      | cons e cs =>
        rw [← (List.cons.inj hrest).2]
        exact List.mem_append_right cs (by decide)
    exact absurd hstar (Version.without_of_read (Clause.version_of_read rfl h) '*' (by decide))

/-- What stands before a wildcard is a version. -/
theorem exists_version_of_wildcard {relation : Relation} (hrelation : relation.isEquality = true)
    {text : String} (hcomma : ',' ∉ text.toList) {r : Range}
    (h : parse (relation.sign ++ text ++ ".*") = .ok r) : ∃ v, Version.parse text = .ok v := by
  have hchars : (relation.sign ++ text ++ ".*").toList =
      relation.sign.toList ++ (text.toList ++ ".*".toList) := by simp
  have hterm : ',' ∉ relation.sign.toList ++ (text.toList ++ ".*".toList) := by
    rw [List.mem_append, List.mem_append, not_or, not_or]
    exact ⟨relation.comma_notMem_sign, hcomma, by decide⟩
  rw [parse, hchars] at h
  rcases read_eq_ok h with ⟨-, hnone⟩ | ⟨hclauses, -⟩
  · rw [trim_wildcard] at hnone
    cases relation <;> rcases hnone with hnil | hstar <;> first | cases hnil | cases hstar
  rw [trim_wildcard, clausesOf_sign, clausesOf.terms, splitOn_of_notMem hterm] at hclauses
  obtain ⟨c, hc⟩ := Outcome.of_mapM hclauses (List.mem_singleton_self _)
  rw [trim_wildcard] at hc
  obtain ⟨v, hv⟩ := version_of_ofTerm hrelation hc
  exact ⟨v, by rw [Version.parse, hv]; rfl⟩

/-- A refusal names the whole text. -/
theorem input_of_read {cs : List Char} {e : RangeError} (h : read cs = .error e) :
    e.input = String.ofList (trim cs) := by
  unfold read at h
  dsimp only at h
  split at h
  next => nomatch h
  next =>
    split at h
    next => nomatch h
    next => rw [← Except.error.inj h]

/-- Before a wildcard may stand any version, also with suffixes, and nothing else.  Its suffixes make
no difference: the term accepts what it accepts for the release alone. -/
theorem wildcard_ignores_suffixes (relation : Relation) (hrelation : relation.isEquality = true)
    (text : String) (hcomma : ',' ∉ text.toList) :
    (∀ v, Version.parse text = .ok v →
      (∃ r, parse (relation.sign ++ text ++ ".*") = .ok r) ∧
      (IsPlain (trim text.toList) ↔ v = ofRelease v.epoch v.release) ∧
      (∃ release, Version.parse release = .ok (ofRelease v.epoch v.release)) ∧
      ∀ release, Version.parse release = .ok (ofRelease v.epoch v.release) →
        Alike (relation.sign ++ text ++ ".*") (relation.sign ++ release ++ ".*")) ∧
    ((¬∃ v, Version.parse text = .ok v) → ∃ cause,
      parse (relation.sign ++ text ++ ".*") =
        .error ⟨relation.sign ++ text ++ ".*", cause⟩) := by
  refine ⟨fun v hv => ?_, fun hnone => ?_⟩
  · have hread := Outcome.of_mapError hv
    have hword := readable_of_read hread
    obtain ⟨written, hparse⟩ := parse_wildcard relation hrelation hv
    obtain ⟨release, -, hrelease⟩ :=
      Version.exists_text hword.epoch hword.release_ne_nil hword.release
    refine ⟨⟨_, hparse⟩, isPlain_iff hread, ⟨release, hrelease⟩, fun release hrelease => ?_⟩
    obtain ⟨written', hparse'⟩ := parse_wildcard relation hrelation hrelease
    exact alike_of_admits hparse hparse' (Clause.all_admits_wildcard relation hrelation _ _ v)
  · cases hparse : parse (relation.sign ++ text ++ ".*") with
    | ok r => exact absurd (exists_version_of_wildcard hrelation hcomma hparse) hnone
    | error e =>
      have hinput : e.input = relation.sign ++ text ++ ".*" := by
        rw [input_of_read hparse, ← String.toList_inj, String.toList_ofList]
        have hchars : (relation.sign ++ text ++ ".*").toList =
            relation.sign.toList ++ (text.toList ++ ".*".toList) := by simp
        rw [hchars, trim_wildcard]
      exact ⟨e.cause, by rw [← hinput]⟩

theorem wildcard_ignores_candidate :
    Alike "!=1!1.0rc1.dev2+l.*" "!=1!1.0.*" ∧
      ∃ cause, parse "!=1.*.*" = .error ⟨"!=1.*.*", cause⟩ := by
  have hcandidate : Version.parse "1!1.0rc1.dev2+l" =
      .ok ⟨1, [1, 0], some (.candidate, 1), none, some 2, some "l"⟩ := by decide +kernel
  have hrelease : Version.parse "1!1.0" = .ok (ofRelease 1 [1, 0]) := by decide +kernel
  have hstar : ¬∃ v, Version.parse "1.*" = .ok v := by
    rintro ⟨v, hv⟩
    exact Version.without_of_read (Outcome.of_mapError hv) '*' (by decide) (by decide)
  obtain ⟨haccepted, -⟩ :=
    wildcard_ignores_suffixes .notEqual rfl "1!1.0rc1.dev2+l" (by decide)
  obtain ⟨-, hrefused⟩ := wildcard_ignores_suffixes .notEqual rfl "1.*" (by decide)
  exact ⟨(haccepted _ hcandidate).2.2.2 "1!1.0" hrelease, hrefused hstar⟩

/-- Not only plain releases are accepted before a wildcard. -/
theorem not_wildcard_plain :
    ¬∀ (relation : Relation) (text : String), relation.isEquality = true → ',' ∉ text.toList →
      (∃ r, parse (relation.sign ++ text ++ ".*") = .ok r) → IsPlain (trim text.toList) := by
  intro h
  have hcandidate : Version.parse "1.0rc1" =
      .ok ⟨0, [1, 0], some (.candidate, 1), none, none, none⟩ := by decide +kernel
  obtain ⟨written, hparse⟩ := parse_wildcard .equal rfl hcandidate
  have hplain := h .equal "1.0rc1" rfl (by decide) ⟨_, hparse⟩
  exact absurd ((isPlain_iff (Outcome.of_mapError hcandidate)).1 hplain) (by decide)

end Range

end Requisite
