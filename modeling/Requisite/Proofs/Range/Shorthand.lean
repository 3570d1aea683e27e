import Requisite.Proofs.Range.Terms

/-!
# Shorthands mean a series

A shorthand stands for its bound and everything after it that begins with the same numbers.  The
numbers that count go up to the one that is raised for the upper bound, and so a version lies below
the upper bound and not before the lower one exactly if it begins with them.

* `Shorthand.pivot` — the position of the number that is raised, among those of the whole release;
* **`Shorthand.significant_raiseAt`** — raising a number leads behind all releases that begin with the
  numbers up to it;
* **`Shorthand.expand_of_read`** — what a shorthand of a version stands for;
* **`Range.shorthand_series`** — a shorthand accepts what its bound and the wildcard of those numbers
  accept, and is refused if the number that it raises fills a word.
-/

namespace Requisite

open Text Version

namespace Shorthand

/-- The sign in front of the bound. -/
def sign : Shorthand → String
  | .caret => "^"
  | .tilde => "~"

/-- The position of the number that a shorthand raises: for the caret the first of the first three
numbers that is not zero, or the last of them if all are, and for the tilde the second number, or the
only one. -/
def pivot : Shorthand → List ℕ → ℕ
  | .caret, release =>
    ((release.take 3).findIdx? (· != 0)).getD ((release.take 3).length - 1)
  | .tilde, release => if 2 ≤ release.length then 1 else 0

/-! ### The number that is raised -/

theorem firstNonzero_eq (ns : List ℕ) :
    firstNonzero ns = (ns.findIdx? (· != 0)).getD (ns.length - 1) := by
  fun_induction firstNonzero ns with
  | case1 => rfl
  | case2 n =>
    by_cases hn : n = 0 <;> simp [List.findIdx?_cons, hn]
  | case3 ns hlong ih =>
    have hpos : 0 < ns.length := List.length_pos_of_ne_nil hlong
    rw [ih, List.findIdx?_cons]
    cases ns.findIdx? (· != 0) with
    | none => simp; omega
    | some i => simp
  | case4 n ns hlong hn => simp [List.findIdx?_cons, hn]

/-- Only the first three numbers count. -/
theorem raised_take (kind : Shorthand) (release : List ℕ) :
    kind.raised (release.take 3) = kind.pivot release := by
  cases kind with
  | caret => exact firstNonzero_eq (release.take 3)
  | tilde =>
    show (if (release.take 3).length > 1 then 1 else 0) = if 2 ≤ release.length then 1 else 0
    rw [List.length_take]
    congr 1
    simp only [eq_iff_iff]
    omega

theorem pivot_lt (kind : Shorthand) {release : List ℕ} (hne : release ≠ []) :
    kind.pivot release < (release.take 3).length := by
  have hpos : 0 < release.length := List.length_pos_of_ne_nil hne
  cases kind with
  | caret =>
    have htake : 0 < (release.take 3).length := by
      rw [List.length_take]
      omega
    show ((release.take 3).findIdx? (· != 0)).getD ((release.take 3).length - 1) < _
    cases hfind : (release.take 3).findIdx? (· != 0) with
    | none => exact Nat.sub_lt htake one_pos
    | some i => exact (List.findIdx?_eq_some_iff_getElem.1 hfind).1
  | tilde =>
    show (if 2 ≤ release.length then 1 else 0) < _
    rw [List.length_take]
    split <;> omega

theorem pivot_lt_three (kind : Shorthand) (release : List ℕ) : kind.pivot release < 3 := by
  rcases eq_or_ne release [] with rfl | hne
  · cases kind <;> decide
  · have hlt := kind.pivot_lt hne
    rw [List.length_take] at hlt
    omega

/-- The number that is raised is among the first three. -/
theorem getElem?_take_pivot (kind : Shorthand) (release : List ℕ) :
    (release.take 3)[kind.pivot release]? = release[kind.pivot release]? :=
  List.getElem?_take_of_lt (kind.pivot_lt_three release)

theorem exists_pivot (kind : Shorthand) {release : List ℕ} (hne : release ≠ []) :
    ∃ n, release[kind.pivot release]? = some n := by
  have hlt := kind.pivot_lt hne
  rw [List.length_take] at hlt
  exact ⟨_, List.getElem?_eq_getElem (by omega)⟩

/-- The numbers up to the raised one are the first ones of the release. -/
theorem take_pivot {kind : Shorthand} {release : List ℕ} {n : ℕ}
    (h : release[kind.pivot release]? = some n) :
    release.take (kind.pivot release + 1) = release.take (kind.pivot release) ++ [n] := by
  rw [List.take_add_one, h]
  rfl

/-- Zeros at the end of a release do not count. -/
theorem significant_zeros (ns : List ℕ) : significant (ns.map fun _ => 0) = [] :=
  significant_eq_nil_iff.2 (by simp)

/-- Raising a number of a release leads to the release behind all that begin with the numbers up to
it. -/
theorem significant_raiseAt {i n : ℕ} {ns : List ℕ} (h : ns[i]? = some n) :
    significant (raiseAt i ns) = significant (ns.take i ++ [n + 1]) := by
  induction ns generalizing i with
  | nil => nomatch h
  | cons m ns ih =>
    cases i with
    | zero =>
      obtain rfl : m = n := Option.some.inj h
      refine significant_cons_congr ?_ (m + 1)
      rw [significant_zeros]
      rfl
    | succ i => exact significant_cons_congr (ih h) m

/-- The upper bound has the place of the first release behind the series. -/
theorem place_ceiling (kind : Shorthand) (epoch : ℕ) {release : List ℕ} {n : ℕ}
    (h : release[kind.pivot release]? = some n) :
    (ofRelease epoch (kind.ceiling (release.take 3))).place =
      (ofRelease epoch (release.take (kind.pivot release) ++ [n + 1])).place := by
  have hget := (kind.getElem?_take_pivot release).trans h
  have htake : (release.take 3).take (kind.pivot release) = release.take (kind.pivot release) := by
    rw [List.take_take, Nat.min_eq_left (kind.pivot_lt_three release).le]
  have hnumbers : significant (kind.ceiling (release.take 3)) =
      significant (release.take (kind.pivot release) ++ [n + 1]) := by
    rw [ceiling, raised_take, significant_raiseAt hget, htake]
  exact congrArg (fun ns => toLex (epoch, ns)) hnumbers

/-! ### What a shorthand stands for -/

/-- The upper clause of a shorthand. -/
def upper (kind : Shorthand) (cs : List Char) (v : Version) : Clause where
  relation := .less
  text := String.ofList (epochText (trim cs) ++ dotted (kind.ceiling (v.release.take 3)))
  bound := ofRelease v.epoch (kind.ceiling (v.release.take 3))
  wildcard := false

/-- A shorthand of a version stands for two clauses, unless its text starts with a letter or the
number that it raises fills a word. -/
theorem expand_of_read (kind : Shorthand) {cs : List Char} {v : Version} {n : ℕ}
    (h : Version.read cs = .ok v) (hn : v.release[kind.pivot v.release]? = some n) :
    kind.expand cs =
      if ((trim cs).headD ' ').isDigit = true then
        if n = maxWord then
          .error ⟨String.ofList (trim cs), .outOfRange (String.ofList (decimal maxWord))⟩
        else .ok [⟨.atLeast, String.ofList (trim cs), v, false⟩, kind.upper cs v]
      else .error ⟨String.ofList (trim cs), .notNumeric⟩ := by
  have hlower : Clause.read .atLeast (trim cs) =
      .ok ⟨.atLeast, String.ofList (trim cs), v, false⟩ := by
    have hread := Clause.read_bound .atLeast ((read_trim cs).trans h)
      fun hcompatible => by nomatch hcompatible
    rwa [trim_trim] at hread
  have htop : (v.release.take 3).getD (kind.raised (v.release.take 3)) 0 = n := by
    rw [raised_take, List.getD_eq_getElem?_getD, getElem?_take_pivot, hn, Option.getD_some]
  unfold expand
  dsimp only
  rw [hlower]
  show (if (!((trim cs).headD ' ').isDigit) = true then _ else _) = _
  cases ((trim cs).headD ' ').isDigit with
  | false => rfl
  | true =>
    show (if _ = maxWord then _ else _) = if n = maxWord then _ else _
    rw [htop]
    split
    next hmax => rw [hmax]
    next => rfl

/-- Of the versions not before the bound, those below the upper bound are those that begin with the
numbers up to the raised one. -/
theorem all_admits_upper (kind : Shorthand) (cs : List Char) {bound : Version} {n : ℕ}
    (hn : bound.release[kind.pivot bound.release]? = some n) (low low' series : String) (v : Version)
    (raw : String) :
    ([⟨.atLeast, low, bound, false⟩, kind.upper cs bound].all fun c : Clause => c.admits v raw) =
      [⟨.atLeast, low', bound, false⟩, ⟨.equal, series,
        ofRelease bound.epoch (bound.release.take (kind.pivot bound.release + 1)), true⟩].all
          fun c : Clause => c.admits v raw := by
  simp only [List.all_cons, List.all_nil, Bool.and_true]
  rw [Bool.eq_iff_iff, Bool.and_eq_true, Bool.and_eq_true]
  refine and_congr_right fun hlow => ?_
  have hbound : bound.place ≤ v.place := place_le_of_atMost (b := v.common) hlow
  have hown : (bound.epoch == bound.epoch && releaseStartsWith bound.release
      (bound.release.take (kind.pivot bound.release) ++ [n])) = true := by
    rw [← take_pivot hn, beq_self_eq_true, Bool.true_and, releaseStartsWith_take]
  rw [take_pivot hn, Clause.admits_series, upper, Clause.admits_below, place_ceiling kind _ hn,
    and_iff_right ((inSeries_iff.1 hown).1.trans hbound)]

end Shorthand

namespace Range

/-! ### Ranges of shorthands -/

theorem trim_shorthand (kind : Shorthand) (cs : List Char) :
    trim (kind.sign.toList ++ cs) = kind.sign.toList ++ trimEnd cs :=
  trim_word (by cases kind <;> decide) (by cases kind <;> decide) cs

/-- A sign of a shorthand is followed by the bound, if no `=` makes it another sign. -/
theorem clausesOf_shorthand (kind : Shorthand) {cs : List Char}
    (h : kind = .tilde → ∀ rest, cs ≠ '=' :: rest) :
    clausesOf (kind.sign.toList ++ cs) = kind.expand cs := by
  cases kind with
  | caret => rfl
  | tilde =>
    show clausesOf ('~' :: cs) = Shorthand.tilde.expand cs
    unfold clausesOf
    split
    next heq => cases heq
    next rest heq => exact absurd (List.cons.inj heq).2 (h rfl rest)
    next heq => rw [(List.cons.inj heq).2]
    next hother => exact absurd rfl (hother cs)

theorem expand_trimEnd (kind : Shorthand) (cs : List Char) :
    kind.expand (trimEnd cs) = kind.expand cs := by
  rw [Shorthand.expand, Shorthand.expand, trim_trimEnd]

/-- The range that a shorthand is read as. -/
theorem read_shorthand (kind : Shorthand) {cs : List Char} (h : '=' ∉ cs) :
    read (kind.sign.toList ++ cs) =
      ((kind.expand cs).mapError (RangeError.mk (String.ofList (kind.sign.toList ++ trimEnd cs)))).map
        (Range.mk (String.ofList (kind.sign.toList ++ trimEnd cs))) := by
  have hclauses : clausesOf (kind.sign.toList ++ trimEnd cs) = kind.expand cs := by
    rw [← expand_trimEnd]
    refine clausesOf_shorthand kind fun _ rest heq => notMem_trimEnd h ?_
    rw [heq]
    exact List.mem_cons_self ..
  have hsome : ¬(kind.sign.toList ++ trimEnd cs = [] ∨ kind.sign.toList ++ trimEnd cs = ['*']) := by
    cases kind <;> rintro (hnil | hstar) <;> first | cases hnil | cases hstar
  rw [read, trim_shorthand, if_neg hsome, hclauses]
  cases kind.expand cs <;> rfl

/-- What a shorthand is read from is a version, or the sign is that of another relation. -/
theorem exists_version_of_shorthand {kind : Shorthand} {cs : List Char} {r : Range}
    (h : read (kind.sign.toList ++ cs) = .ok r) :
    (∃ v, Version.read cs = .ok v) ∨ kind = .tilde ∧ ∃ rest, cs = '=' :: rest := by
  rcases read_eq_ok h with ⟨-, hnone⟩ | ⟨hclauses, -⟩
  · rw [trim_shorthand] at hnone
    cases kind <;> rcases hnone with hnil | hstar <;> first | cases hnil | cases hstar
  rw [trim_shorthand] at hclauses
  by_cases hequal : kind = .tilde ∧ ∃ rest, trimEnd cs = '=' :: rest
  · obtain ⟨htilde, rest, hrest⟩ := hequal
    obtain ⟨b, hb, -⟩ := exists_blanks_trimEnd cs
    refine Or.inr ⟨htilde, rest ++ b, ?_⟩
    rw [hb, hrest, List.cons_append]
  · rw [clausesOf_shorthand kind fun htilde rest hrest => hequal ⟨htilde, rest, hrest⟩,
      expand_trimEnd] at hclauses
    obtain ⟨lower, hlower, -⟩ := Outcome.of_bind hclauses
    exact Or.inl ⟨_, (Version.read_trim cs).symm.trans (Clause.version_of_read rfl hlower)⟩

/-- A shorthand of a version is read as its two clauses, or refused. -/
theorem parse_shorthand (kind : Shorthand) {text : String} {v : Version} {n : ℕ}
    (h : Version.parse text = .ok v) (hn : v.release[kind.pivot v.release]? = some n) :
    parse (kind.sign ++ text) =
      if ((trim text.toList).headD ' ').isDigit = true then
        if n = maxWord then
          .error ⟨String.ofList (kind.sign.toList ++ trimEnd text.toList),
            String.ofList (trim text.toList), .outOfRange (String.ofList (decimal maxWord))⟩
        else .ok ⟨String.ofList (kind.sign.toList ++ trimEnd text.toList),
          [⟨.atLeast, String.ofList (trim text.toList), v, false⟩, kind.upper text.toList v]⟩
      else .error ⟨String.ofList (kind.sign.toList ++ trimEnd text.toList),
        String.ofList (trim text.toList), .notNumeric⟩ := by
  have hread := Outcome.of_mapError h
  have hequal : '=' ∉ text.toList := Version.without_of_read hread '=' (by decide)
  rw [parse, String.toList_append, read_shorthand kind hequal, kind.expand_of_read hread hn]
  split_ifs <;> rfl

theorem clauses_of_parse_shorthand {kind : Shorthand} {text : String} {v : Version} {n : ℕ}
    {r : Range} (hr : parse (kind.sign ++ text) = .ok r) (h : Version.parse text = .ok v)
    (hn : v.release[kind.pivot v.release]? = some n) : r.clauses =
      [⟨.atLeast, String.ofList (trim text.toList), v, false⟩, kind.upper text.toList v] := by
  rw [parse_shorthand kind h hn] at hr
  split_ifs at hr
  rw [← Except.ok.inj hr]

/-- The numbers up to the pivot are the release of some text. -/
theorem exists_series_text (kind : Shorthand) {text : String} {v : Version}
    (h : Version.parse text = .ok v) : ∃ series, Version.parse series =
      .ok (ofRelease v.epoch (v.release.take (kind.pivot v.release + 1))) := by
  have hword := readable_of_read (Outcome.of_mapError h)
  have hne : v.release.take (kind.pivot v.release + 1) ≠ [] := by simp [hword.release_ne_nil]
  obtain ⟨series, -, hseries⟩ := Version.exists_text hword.epoch hne
    fun m hm => hword.release m (List.mem_of_mem_take hm)
  exact ⟨series, hseries⟩

/-- A shorthand that is read accepts what its bound and the wildcard of its series accept. -/
theorem alike_shorthand (kind : Shorthand) {text series : String} {v : Version} {r : Range}
    (hr : parse (kind.sign ++ text) = .ok r) (h : Version.parse text = .ok v)
    (hseries : Version.parse series =
      .ok (ofRelease v.epoch (v.release.take (kind.pivot v.release + 1)))) :
    Alike (kind.sign ++ text) (">=" ++ text ++ ",==" ++ series ++ ".*") := by
  obtain ⟨n, hn⟩ := kind.exists_pivot (readable_of_read (Outcome.of_mapError h)).release_ne_nil
  obtain ⟨written, hterms⟩ := parse_series h hseries
  refine alike_of_admits hr hterms fun w raw => ?_
  rw [clauses_of_parse_shorthand hr h hn]
  exact kind.all_admits_upper text.toList hn _ _ _ w raw

/-- A shorthand that is read is written with a version behind its sign, or else its sign begins that
of another relation.  It accepts the candidates that are not before the version and begin with its
numbers up to the pivot, whatever text these are written as.  A shorthand of a version is read if the
version starts with a digit and its number at the pivot can be raised within a word. -/
theorem shorthand_series (kind : Shorthand) (text : String) :
    (∀ r, parse (kind.sign ++ text) = .ok r →
      (∃ v, Version.parse text = .ok v) ∨ kind = .tilde ∧ ∃ rest, text = "=" ++ rest) ∧
    ∀ v, Version.parse text = .ok v → ∃ n, v.release[kind.pivot v.release]? = some n ∧
      ((∃ r, parse (kind.sign ++ text) = .ok r) ↔
        ((trim text.toList).headD ' ').isDigit = true ∧ n ≠ maxWord) ∧
      (((trim text.toList).headD ' ').isDigit = true → n = maxWord →
        parse (kind.sign ++ text) = .error ⟨String.ofList (kind.sign.toList ++ trimEnd text.toList),
          String.ofList (trim text.toList), .outOfRange "18446744073709551615"⟩) ∧
      ((∃ r, parse (kind.sign ++ text) = .ok r) →
        (∃ series, Version.parse series =
          .ok (ofRelease v.epoch (v.release.take (kind.pivot v.release + 1)))) ∧
        ∀ series, Version.parse series =
            .ok (ofRelease v.epoch (v.release.take (kind.pivot v.release + 1))) →
          Alike (kind.sign ++ text) (">=" ++ text ++ ",==" ++ series ++ ".*")) := by
  refine ⟨fun r hr => ?_, fun v hv => ?_⟩
  · rw [parse, String.toList_append] at hr
    rcases exists_version_of_shorthand hr with ⟨v, hv⟩ | ⟨htilde, rest, hrest⟩
    · exact Or.inl ⟨v, by rw [Version.parse, hv]; rfl⟩
    · refine Or.inr ⟨htilde, String.ofList rest, ?_⟩
      rw [← String.toList_inj, hrest, String.toList_append, String.toList_ofList]
      simp
  obtain ⟨n, hn⟩ := kind.exists_pivot (readable_of_read (Outcome.of_mapError hv)).release_ne_nil
  have hparse := parse_shorthand kind hv hn
  refine ⟨n, hn, ⟨?_, ?_⟩, ?_, ?_⟩
  · rintro ⟨r, hr⟩
    rw [hparse] at hr
    split_ifs at hr with hdigit hmax
    exact ⟨hdigit, hmax⟩
  · rintro ⟨hdigit, hmax⟩
    rw [hparse, if_pos hdigit, if_neg hmax]
    exact ⟨_, rfl⟩
  · intro hdigit hmax
    rw [hparse, if_pos hdigit, if_pos hmax]
    rfl
  · rintro ⟨r, hr⟩
    exact ⟨exists_series_text kind hv, fun series => alike_shorthand kind hr hv⟩

/-- The caret and the tilde at a bound with an epoch, four numbers and suffixes, each with a version
that is accepted and one that is not, and the caret at a number that fills a word. -/
theorem shorthand_series_bounds :
    Alike "^2!0.3.1.4rc1+l" ">=2!0.3.1.4rc1+l,==2!0.3.*" ∧
      Alike "~2!0.3.1.4rc1+l" ">=2!0.3.1.4rc1+l,==2!0.3.*" ∧
        parse "^0.18446744073709551615" = .error ⟨"^0.18446744073709551615",
          "0.18446744073709551615", .outOfRange "18446744073709551615"⟩ ∧
        (∃ r, parse "^2!0.3.1.4rc1+l" = .ok r ∧ r.accepts "2!0.3.9" = .ok true ∧
          r.accepts "2!0.4" = .ok false) ∧
        ∃ r, parse "~2!0.3.1.4rc1+l" = .ok r ∧ r.accepts "2!0.3.1.4" = .ok true ∧
          r.accepts "2!0.3.1" = .ok false := by
  have hbound : Version.parse "2!0.3.1.4rc1+l" =
      .ok ⟨2, [0, 3, 1, 4], some (.candidate, 1), none, none, some "l"⟩ := by decide +kernel
  have hseries : Version.parse "2!0.3" = .ok (ofRelease 2 [0, 3]) := by decide +kernel
  have hword : Version.parse "0.18446744073709551615" = .ok (ofRelease 0 [0, maxWord]) := by
    decide +kernel
  obtain ⟨-, hcaret⟩ := shorthand_series .caret "2!0.3.1.4rc1+l"
  obtain ⟨-, htilde⟩ := shorthand_series .tilde "2!0.3.1.4rc1+l"
  obtain ⟨-, hfull⟩ := shorthand_series .caret "0.18446744073709551615"
  obtain ⟨n, hn, hread, -, halike⟩ := hcaret _ hbound
  obtain ⟨m, hm, hread', -, halike'⟩ := htilde _ hbound
  obtain ⟨k, hk, -, hrefused, -⟩ := hfull _ hword
  obtain rfl : 3 = n := Option.some.inj hn
  obtain rfl : 3 = m := Option.some.inj hm
  obtain rfl : maxWord = k := Option.some.inj hk
  exact ⟨(halike (hread.2 (by decide +kernel))).2 "2!0.3" hseries,
    (halike' (hread'.2 (by decide +kernel))).2 "2!0.3" hseries, hrefused (by decide +kernel) rfl,
    ⟨_, rfl, by decide +kernel, by decide +kernel⟩, ⟨_, rfl, by decide +kernel, by decide +kernel⟩⟩

end Range

end Requisite
