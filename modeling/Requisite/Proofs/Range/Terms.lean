import Requisite.Proofs.Range.Normal
import Requisite.Proofs.Version.Plain

/-!
# Ranges written as terms

A term of a range is a sign with the text of a bound behind it.  Terms with commas between them are
read one by one, and what a range accepts depends on what its clauses admit only.

* `Range.termsChars` — the text of some terms;
* `Range.Alike` — texts of ranges that accept the same candidates, and refuse the same texts;
* **`Clause.read_bound`**, **`Clause.read_wildcard`** — the clause of a version, and of a version with a
  wildcard behind it;
* **`Clause.admits_series`**, **`Clause.admits_below`** — the versions that a wildcard and an upper
  bound let through, by their places;
* **`Range.clausesOf_terms`**, **`Range.parse_terms`** — terms are read one by one, and as a range;
* **`Range.alike_of_admits`** — ranges whose clauses admit the same versions are alike.
-/

namespace Requisite

open Text

namespace Version

theorem read_trim (cs : List Char) : Version.read (trim cs) = Version.read cs := by
  rw [Version.read, Version.read, trim_trim]

theorem read_trimStart (cs : List Char) : Version.read (trimStart cs) = Version.read cs := by
  rw [Version.read, Version.read, trim_trimStart]

theorem parse_ofList {cs : List Char} {v : Version} (h : Version.read cs = .ok v) :
    Version.parse (String.ofList cs) = .ok v := by
  rw [Version.parse, String.toList_ofList, h]
  rfl

/-- Numbers that fit a word are the release of some text. -/
theorem exists_text {epoch : ℕ} {release : List ℕ} (hepoch : epoch ≤ maxWord)
    (hne : release ≠ []) (hrelease : ∀ n ∈ release, n ≤ maxWord) :
    ∃ text : String, Blankless text.toList ∧ Version.parse text = .ok (ofRelease epoch release) := by
  have hreadable : (ofRelease epoch release).Readable :=
    ⟨hne, hepoch, hrelease, nofun, nofun, nofun, nofun⟩
  refine ⟨toString (ofRelease epoch release), ?_, parse_ofList (read_chars hreadable)⟩
  show Blankless (String.ofList (ofRelease epoch release).chars).toList
  rw [String.toList_ofList]
  exact fun c hc => Spelling.isBlank_of_isVersionChar
    (Spelling.isVersionChar_of_read? (read?_chars hreadable) c hc)

end Version

namespace Clause

theorem read_trimEnd (relation : Relation) (cs : List Char) :
    read relation (trimEnd cs) = read relation cs := by
  rw [read, read, trim_trimEnd]

/-- The text of a bound has no sign of equality and no comma in it. -/
theorem without_of_read {relation : Relation} {cs : List Char} {c : Clause}
    (h : read relation cs = .ok c) : Without ['=', ','] cs := by
  obtain ⟨hwritten, -, hchars⟩ := of_read h
  have hbody := hwritten.without_boundChars
  rw [hchars] at hbody
  have hblanks : ∀ {bs : List Char}, (∀ b ∈ bs, isBlank b = true) → Without ['=', ','] bs :=
    fun hbs => without_of_forall hbs (by decide)
  obtain ⟨a, b, hcs, ha, hb⟩ := exists_blanks_trim cs
  rw [hcs]
  exact ((hblanks ha).append hbody).append (hblanks hb)

/-- The bound of a relation that takes no wildcard is a version. -/
theorem version_of_read {relation : Relation} (hrelation : relation.isEquality = false)
    {cs : List Char} {c : Clause} (h : read relation cs = .ok c) :
    Version.read cs = .ok c.bound := by
  obtain ⟨bound, hbound, -, rfl⟩ := read_eq_ok.1 h
  have hplain : (bodyAndWildcard relation (trim cs)).1 = trim cs := by
    unfold bodyAndWildcard
    split
    next => rw [hrelation]; rfl
    next => rfl
  have hread := Outcome.of_mapError hbound
  rwa [hplain, String.toList_ofList, Version.read_trim] at hread

/-- The clause of a version. -/
theorem read_bound (relation : Relation) {cs : List Char} {v : Version}
    (h : Version.read cs = .ok v) (hlong : relation = .compatible → 2 ≤ v.release.length) :
    read relation cs = .ok ⟨relation, String.ofList (trim cs), v, false⟩ := by
  have hplain : bodyAndWildcard relation (trim cs) = (trim cs, false) :=
    bodyAndWildcard_of_notMem relation
      (((Version.without_of_read h).of_isInfix (isInfix_trim cs)) '*' (by decide))
  refine read_eq_ok.2 ⟨v, ?_, fun hshort => ?_, ?_⟩
  · rw [hplain]
    exact Version.parse_ofList ((Version.read_trim cs).trans h)
  · exact absurd (hlong hshort.1) (Nat.not_le.2 hshort.2)
  · rw [hplain]

/-- Trimming a text before a wildcard leaves the wildcard. -/
theorem trim_append_wildcard (cs : List Char) :
    trim (cs ++ ".*".toList) = trimStart cs ++ ".*".toList := by
  have hstart : trimStart (cs ++ ".*".toList) = trimStart cs ++ ".*".toList := by
    rw [trimStart, List.dropWhile_append, trimStart]
    split
    next hempty =>
      rw [List.isEmpty_iff.1 hempty]
      rfl
    next => rfl
  have hend : trimEnd ".*".toList = ".*".toList := rfl
  rw [trim, hstart, trimEnd_append _ (by rw [hend]; decide), hend]

/-- The clause of a version with a wildcard behind it. -/
theorem read_wildcard {relation : Relation} (hrelation : relation.isEquality = true)
    {cs : List Char} {v : Version} (h : Version.read cs = .ok v) :
    read relation (cs ++ ".*".toList) = .ok ⟨relation, String.ofList (trimStart cs), v, true⟩ := by
  have hbody := bodyAndWildcard_append hrelation (trimStart cs)
  rw [← trim_append_wildcard] at hbody
  refine read_eq_ok.2 ⟨v, ?_, fun hshort => ?_, ?_⟩
  · rw [hbody]
    exact Version.parse_ofList ((Version.read_trimStart cs).trans h)
  · rw [hshort.1] at hrelation
    nomatch hrelation
  · rw [hbody]

/-- A release with a wildcard lets its series through. -/
theorem admits_series {text raw : String} {epoch : ℕ} {ns : List ℕ} {n : ℕ} {v : Version} :
    admits ⟨.equal, text, Version.ofRelease epoch (ns ++ [n]), true⟩ v raw = true ↔
      (Version.ofRelease epoch (ns ++ [n])).place ≤ v.place ∧
        v.place < (Version.ofRelease epoch (ns ++ [n + 1])).place :=
  Version.inSeries_iff

/-- Below a release lie the versions of earlier releases. -/
theorem admits_below {text raw : String} {epoch : ℕ} {release : List ℕ} {v : Version} :
    admits ⟨.less, text, Version.ofRelease epoch release, false⟩ v raw = true ↔
      v.place < (Version.ofRelease epoch release).place := by
  rw [← Version.before_ofRelease_iff, ← Bool.and_true v.isPrerelease]
  rfl

end Clause

namespace Range

/-! ### Texts of terms -/

/-- A term as it is written: the sign of its relation and the text of its bound. -/
def termChars (t : Relation × List Char) : List Char :=
  t.1.sign.toList ++ t.2

/-- Terms with commas between them. -/
def termsChars (ts : List (Relation × List Char)) : List Char :=
  [','].intercalate (ts.map termChars)

theorem termsChars_cons (t : Relation × List Char) {ts : List (Relation × List Char)}
    (hne : ts ≠ []) : termsChars (t :: ts) = termChars t ++ [','] ++ termsChars ts := by
  obtain ⟨u, us, rfl⟩ := List.exists_cons_of_ne_nil hne
  simp only [termsChars, List.map_cons, List.intercalate_cons_cons]

/-- Terms start with the sign of the first one. -/
theorem exists_termsChars_eq (t : Relation × List Char) (ts : List (Relation × List Char)) :
    ∃ rest, termsChars (t :: ts) = t.1.sign.toList ++ rest := by
  cases ts with
  | nil => exact ⟨t.2, List.intercalate_singleton ..⟩
  | cons u ts =>
    refine ⟨t.2 ++ [','] ++ termsChars (u :: ts), ?_⟩
    simp [termsChars_cons t (List.cons_ne_nil u ts), termChars]

theorem termsChars_ne_nil {ts : List (Relation × List Char)} (hne : ts ≠ []) :
    termsChars ts ≠ [] := by
  obtain ⟨t, ts, rfl⟩ := List.exists_cons_of_ne_nil hne
  obtain ⟨rest, hrest⟩ := exists_termsChars_eq t ts
  rw [hrest]
  exact List.append_ne_nil_of_left_ne_nil t.1.sign_ne_nil rest

theorem trimEnd_termChars (t : Relation × List Char) :
    trimEnd (termChars t) = termChars (t.1, trimEnd t.2) :=
  trimEnd_word t.1.blankless_sign t.2

/-- Blanks at the end of some terms are blanks at the end of the last bound. -/
theorem trimEnd_termsChars (ts : List (Relation × List Char)) (t : Relation × List Char) :
    trimEnd (termsChars (ts ++ [t])) = termsChars (ts ++ [(t.1, trimEnd t.2)]) := by
  have hne (x : Relation × List Char) (us : List (Relation × List Char)) : us ++ [x] ≠ [] := by
    simp
  induction ts with
  | nil => simp [termsChars, trimEnd_termChars]
  | cons u ts ih =>
    have htail : trimEnd (termsChars (ts ++ [t])) ≠ [] := ih ▸ termsChars_ne_nil (hne _ ts)
    rw [List.cons_append, List.cons_append, termsChars_cons u (hne t ts),
      termsChars_cons u (hne _ ts), trimEnd_append _ htail, ih]

/-- A term is read as the clause of its relation and its bound. -/
theorem ofTerm_termChars {t : Relation × List Char} (h : '=' ∉ t.2) :
    Clause.ofTerm (trim (termChars t)) = Clause.read t.1 t.2 := by
  have hsplit := t.1.split?_sign fun hmem => h ((exists_blanks_trimEnd t.2).elim fun b hb => by
    rw [hb.1]
    exact List.mem_append_left b hmem)
  rw [termChars, trim_word t.1.blankless_sign t.1.sign_ne_nil, ← Clause.read_trimEnd]
  obtain ⟨c, cs, hcs⟩ := List.exists_cons_of_ne_nil
    (List.append_ne_nil_of_left_ne_nil t.1.sign_ne_nil (trimEnd t.2))
  rw [hcs] at hsplit ⊢
  rw [Clause.ofTerm, hsplit]

theorem mapM_ofTerm {ts : List (Relation × List Char)} (h : ∀ t ∈ ts, '=' ∉ t.2) :
    (ts.map termChars).mapM (fun term => Clause.ofTerm (trim term)) =
      ts.mapM fun t => Clause.read t.1 t.2 := by
  induction ts with
  | nil => rfl
  | cons t ts ih =>
    obtain ⟨ht, h⟩ := List.forall_mem_cons.1 h
    rw [List.map_cons, List.mapM_cons, List.mapM_cons, ofTerm_termChars ht, ih h]

theorem splitOn_termsChars {ts : List (Relation × List Char)} (hne : ts ≠ [])
    (h : ∀ t ∈ ts, ',' ∉ t.2) : (termsChars ts).splitOn ',' = ts.map termChars := by
  refine List.splitOn_intercalate ',' (fun term hterm => ?_) (List.map_eq_nil_iff.not.2 hne)
  obtain ⟨t, ht, rfl⟩ := List.mem_map.1 hterm
  rw [termChars, List.mem_append, not_or]
  exact ⟨t.1.comma_notMem_sign, h t ht⟩

/-- Terms are read one by one. -/
theorem clausesOf_terms {ts : List (Relation × List Char)} (hne : ts ≠ [])
    (h : ∀ t ∈ ts, Without ['=', ','] t.2) :
    clausesOf (trim (termsChars ts)) = ts.mapM fun t => Clause.read t.1 t.2 := by
  obtain ⟨init, t, rfl⟩ : ∃ init t, ts = init ++ [t] :=
    ⟨_, _, (List.dropLast_append_getLast hne).symm⟩
  obtain ⟨u, us, hus⟩ := List.exists_cons_of_ne_nil hne
  have htrim : trim (termsChars (init ++ [t])) = termsChars (init ++ [(t.1, trimEnd t.2)]) := by
    obtain ⟨rest, hrest⟩ := exists_termsChars_eq u us
    rw [← trimEnd_termsChars, hus, hrest, trim_word u.1.blankless_sign u.1.sign_ne_nil,
      trimEnd_word u.1.blankless_sign]
  have hlast : ∀ x ∈ init ++ [(t.1, trimEnd t.2)], Without ['=', ','] x.2 := by
    rw [List.forall_mem_append, List.forall_mem_singleton] at h ⊢
    refine ⟨h.1, fun c hc => notMem_trimEnd (h.2 c hc)⟩
  obtain ⟨w, ws, hws⟩ : ∃ w ws, init ++ [(t.1, trimEnd t.2)] = w :: ws :=
    List.exists_cons_of_ne_nil (List.append_ne_nil_of_right_ne_nil _ (List.cons_ne_nil _ _))
  have hterms : clausesOf (termsChars (w :: ws)) = clausesOf.terms (termsChars (w :: ws)) := by
    obtain ⟨rest, hrest⟩ := exists_termsChars_eq w ws
    rw [hrest, clausesOf_sign]
  rw [htrim, hws, hterms, ← hws, clausesOf.terms,
    splitOn_termsChars (List.append_ne_nil_of_right_ne_nil _ (List.cons_ne_nil _ _))
      fun x hx => hlast x hx ',' (by decide),
    mapM_ofTerm fun x hx => hlast x hx '=' (by decide)]
  simp only [List.mapM_append, List.mapM_cons, List.mapM_nil, Clause.read_trimEnd]

/-- Terms are neither nothing nor a star. -/
theorem trim_termsChars_ne {ts : List (Relation × List Char)} (hne : ts ≠ []) :
    ¬(trim (termsChars ts) = [] ∨ trim (termsChars ts) = ['*']) := by
  obtain ⟨t, us, rfl⟩ := List.exists_cons_of_ne_nil hne
  obtain ⟨rest, hrest⟩ := exists_termsChars_eq t us
  rw [hrest, trim_word t.1.blankless_sign t.1.sign_ne_nil]
  cases t.1 <;> rintro (hnil | hstar) <;> first | cases hnil | cases hstar

/-- Terms whose clauses are read are read as a range. -/
theorem parse_terms {text : String} (ts : List (Relation × List Char)) {clauses : List Clause}
    (hne : ts ≠ []) (htext : text.toList = termsChars ts)
    (h : (ts.mapM fun t => Clause.read t.1 t.2) = .ok clauses) :
    parse text = .ok ⟨String.ofList (trim (termsChars ts)), clauses⟩ := by
  have hwithout : ∀ t ∈ ts, Without ['=', ','] t.2 := by
    intro t ht
    obtain ⟨c, hc⟩ := Outcome.of_mapM h ht
    exact Clause.without_of_read hc
  rw [parse, htext, read, if_neg (trim_termsChars_ne hne), clausesOf_terms hne hwithout, h]

/-- A single term whose clause is read is read as a range. -/
theorem parse_term (text : String) (relation : Relation) {cs : List Char} {c : Clause}
    (htext : text.toList = relation.sign.toList ++ cs) (h : Clause.read relation cs = .ok c) :
    parse text = .ok ⟨String.ofList (relation.sign.toList ++ trimEnd cs), [c]⟩ := by
  have hterm : termsChars [(relation, cs)] = relation.sign.toList ++ cs :=
    List.intercalate_singleton ..
  rw [← trim_word relation.blankless_sign relation.sign_ne_nil, ← hterm]
  refine parse_terms _ (List.cons_ne_nil _ _) (htext.trans hterm.symm) ?_
  rw [List.mapM_cons, h]
  rfl

/-- The clause of a single term was read. -/
theorem exists_clause_of_parse {text : String} {relation : Relation} {cs : List Char} {r : Range}
    (htext : text.toList = relation.sign.toList ++ cs) (h : Without ['=', ','] cs)
    (hr : parse text = .ok r) : ∃ c, Clause.read relation cs = .ok c := by
  have hterm : termsChars [(relation, cs)] = relation.sign.toList ++ cs :=
    List.intercalate_singleton ..
  have hne : [(relation, cs)] ≠ [] := List.cons_ne_nil _ _
  rw [parse, htext, ← hterm] at hr
  rcases read_eq_ok hr with ⟨-, hnone⟩ | ⟨hclauses, -⟩
  · exact absurd hnone (trim_termsChars_ne hne)
  · rw [clausesOf_terms hne (List.forall_mem_singleton.2 h)] at hclauses
    obtain ⟨c, hc⟩ := Outcome.of_mapM hclauses (List.mem_singleton_self (relation, cs))
    exact ⟨c, hc⟩

/-- Two terms whose clauses are read are read as a range. -/
theorem parse_pair (text : String) (r s : Relation) {as bs : List Char} {c d : Clause}
    (htext : text.toList = r.sign.toList ++ as ++ [','] ++ (s.sign.toList ++ bs))
    (hc : Clause.read r as = .ok c) (hd : Clause.read s bs = .ok d) :
    ∃ written, parse text = .ok ⟨written, [c, d]⟩ := by
  refine ⟨_, parse_terms [(r, as), (s, bs)] (List.cons_ne_nil _ _) ?_ ?_⟩
  · rw [termsChars_cons _ (List.cons_ne_nil _ _)]
    exact htext.trans (congrArg _ (List.intercalate_singleton ..).symm)
  · rw [List.mapM_cons, List.mapM_cons, hc, hd]
    rfl

/-- A version with a wildcard behind it is read as one clause. -/
theorem parse_wildcard (relation : Relation) (hrelation : relation.isEquality = true)
    {text : String} {v : Version} (h : Version.parse text = .ok v) :
    ∃ written, parse (relation.sign ++ text ++ ".*") =
      .ok ⟨written, [⟨relation, String.ofList (trimStart text.toList), v, true⟩]⟩ :=
  ⟨_, parse_term _ relation (by simp) (Clause.read_wildcard hrelation (Outcome.of_mapError h))⟩

/-- A lower bound and a series are read as two clauses. -/
theorem parse_series {text series : String} {v bound : Version} (h : Version.parse text = .ok v)
    (hseries : Version.parse series = .ok bound) :
    ∃ written, parse (">=" ++ text ++ ",==" ++ series ++ ".*") =
      .ok ⟨written, [⟨.atLeast, String.ofList (trim text.toList), v, false⟩,
        ⟨.equal, String.ofList (trimStart series.toList), bound, true⟩]⟩ :=
  parse_pair _ .atLeast .equal (by simp [Relation.sign])
    (Clause.read_bound .atLeast (Outcome.of_mapError h) nofun)
    (Clause.read_wildcard rfl (Outcome.of_mapError hseries))

/-! ### Ranges that accept the same -/

/-- Two texts of ranges that accept the same candidates, and refuse the same texts. -/
def Alike (s t : String) : Prop :=
  ∃ r r', parse s = .ok r ∧ parse t = .ok r' ∧ ∀ candidate, r.accepts candidate = r'.accepts candidate

theorem alike_of_admits {s t : String} {r r' : Range} (hs : parse s = .ok r) (ht : parse t = .ok r')
    (h : ∀ v raw, (r.clauses.all fun c => c.admits v raw) = r'.clauses.all fun c => c.admits v raw) :
    Alike s t := by
  refine ⟨r, r', hs, ht, fun candidate => ?_⟩
  rw [accepts, accepts, funext fun v => h v candidate]

end Range

end Requisite
