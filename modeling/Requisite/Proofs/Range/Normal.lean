import Requisite.Proofs.Range.Written
import Requisite.Proofs.Version.Reading

/-!
# The normal text of a range

The clauses of a range with commas between them are its normal text, in which every sign is spelled
out and no shorthand is left.  It is read as the same clauses, down to the text of every bound, and so
it lets the same candidates through.

* `Clause.Written` — the clauses that reading can leave;
* **`Clause.ofTerm_chars`** — such a clause is read again from its text;
* **`Range.written_of_clausesOf`** — reading leaves no other clauses, shorthands included;
* **`Range.clausesOf_chars`** — the clauses are read again from the normal text;
* **`Range.parse_text`** — the normal text is accepted, is its own normal text and accepts the same
  candidates.
-/

namespace Requisite

open Text

/-! ### The text of a bound -/

theorem Version.without_of_read {cs : List Char} {v : Version} (h : Version.read cs = .ok v) :
    Without ['=', ',', '*'] cs := by
  have hclass : ∀ c ∈ cs, (Spelling.isVersionChar c || isBlank c) = true := fun c hc => by
    rw [Bool.or_eq_true]
    exact Version.chars_of_read h c hc
  exact without_of_forall hclass (by decide)

namespace Relation

theorem blankless_sign (r : Relation) : Blankless r.sign.toList := by
  cases r <;> decide

theorem sign_ne_nil (r : Relation) : r.sign.toList ≠ [] := by
  cases r <;> decide

theorem comma_notMem_sign (r : Relation) : ',' ∉ r.sign.toList := by
  cases r <;> decide

/-- A sign is read as its relation, if no `=` goes on with it. -/
theorem split?_sign (r : Relation) {cs : List Char} (h : '=' ∉ cs) :
    split? (r.sign.toList ++ cs) = some (r, cs) := by
  cases cs with
  | nil => cases r <;> decide
  | cons c cs =>
    have hc : c ≠ '=' := fun heq => h (by rw [heq]; exact List.mem_cons_self ..)
    cases r <;> simp [split?, signs, sign, after?, strip?, hc]

end Relation

namespace Clause

/-- The bound as it is written behind the sign. -/
def boundChars (c : Clause) : List Char :=
  c.text.toList ++ if c.wildcard then ".*".toList else []

theorem chars_eq (c : Clause) : c.chars = c.relation.sign.toList ++ c.boundChars :=
  List.append_assoc ..

/-- The clauses that reading can leave. -/
structure Written (c : Clause) : Prop where
  bound : Version.parse c.text = .ok c.bound
  trimmed : trim c.boundChars = c.boundChars
  wildcard : c.wildcard = true → c.relation.isEquality = true
  compatible : c.relation = .compatible → 2 ≤ c.bound.release.length

theorem Written.without {c : Clause} (h : c.Written) : Without ['=', ',', '*'] c.text.toList :=
  Version.without_of_read (Outcome.of_mapError h.bound)

theorem Written.without_boundChars {c : Clause} (h : c.Written) : Without ['=', ','] c.boundChars := by
  refine (h.without.of_subset (by decide)).append ?_
  split
  next => decide
  next => exact fun d _ => List.not_mem_nil

theorem Written.comma_notMem {c : Clause} (h : c.Written) : ',' ∉ c.chars := by
  rw [chars_eq, List.mem_append, not_or]
  exact ⟨c.relation.comma_notMem_sign, h.without_boundChars ',' (by decide)⟩

theorem Written.ended_boundChars {c : Clause} (h : c.Written) : Ended c.boundChars := by
  have hended := ended_trim c.boundChars
  rwa [h.trimmed] at hended

/-- A written clause has no blank at its ends. -/
theorem Written.trim_chars {c : Clause} (h : c.Written) : trim c.chars = c.chars := by
  rw [chars_eq, trim_word c.relation.blankless_sign c.relation.sign_ne_nil,
    trimEnd_eq_self_iff.2 h.ended_boundChars]

/-- The text of a bound without its wildcard, and whether it has one. -/
def bodyAndWildcard (relation : Relation) (cs : List Char) : List Char × Bool :=
  match before? ".*" cs with
  | some body => if relation.isEquality then (body, true) else (cs, false)
  | none => (cs, false)

theorem bodyAndWildcard_join (relation : Relation) (cs : List Char) :
    (bodyAndWildcard relation cs).1 ++
        (if (bodyAndWildcard relation cs).2 then ".*".toList else []) = cs ∧
      ((bodyAndWildcard relation cs).2 = true → relation.isEquality = true) := by
  unfold bodyAndWildcard
  split
  next body hbody =>
    split
    next hequality => exact ⟨(before?_eq_some.1 hbody).symm, fun _ => hequality⟩
    next => exact ⟨List.append_nil cs, nofun⟩
  next => exact ⟨List.append_nil cs, nofun⟩

/-- A text without a star has no wildcard. -/
theorem bodyAndWildcard_of_notMem (relation : Relation) {cs : List Char} (h : '*' ∉ cs) :
    bodyAndWildcard relation cs = (cs, false) := by
  have hnone : before? ".*" cs = none := by
    rw [Option.eq_none_iff_forall_ne_some]
    intro body hbody
    refine h ?_
    rw [before?_eq_some.1 hbody]
    exact List.mem_append_right _ (by decide)
  rw [bodyAndWildcard, hnone]

/-- The wildcard of an equality is taken off. -/
theorem bodyAndWildcard_append {relation : Relation} (h : relation.isEquality = true)
    (cs : List Char) : bodyAndWildcard relation (cs ++ ".*".toList) = (cs, true) := by
  rw [bodyAndWildcard, before?_eq_some.2 rfl]
  exact if_pos h

theorem Written.bodyAndWildcard_boundChars {c : Clause} (h : c.Written) :
    bodyAndWildcard c.relation c.boundChars = (c.text.toList, c.wildcard) := by
  unfold boundChars
  cases hwildcard : c.wildcard with
  | true =>
    rw [if_pos rfl]
    exact bodyAndWildcard_append (h.wildcard hwildcard) _
  | false =>
    rw [if_neg Bool.false_ne_true, List.append_nil]
    exact bodyAndWildcard_of_notMem _ (h.without '*' (by decide))

/-- A clause is read from the text of its bound without the wildcard. -/
theorem read_eq_ok {relation : Relation} {cs : List Char} {c : Clause} :
    read relation cs = .ok c ↔ ∃ bound,
      Version.parse (String.ofList (bodyAndWildcard relation (trim cs)).1) = .ok bound ∧
        ¬(relation = .compatible ∧ bound.release.length < 2) ∧
          c = ⟨relation, String.ofList (bodyAndWildcard relation (trim cs)).1, bound,
            (bodyAndWildcard relation (trim cs)).2⟩ := by
  constructor
  · intro h
    unfold read at h
    dsimp only at h
    split at h
    next => nomatch h
    next bound hbound =>
      split at h
      next => nomatch h
      next hcompatible => exact ⟨bound, hbound, hcompatible, (Except.ok.inj h).symm⟩
  · rintro ⟨bound, hbound, hcompatible, rfl⟩
    unfold read
    dsimp only
    split
    next e he => nomatch he.symm.trans hbound
    next bound' hbound' =>
      obtain rfl := Except.ok.inj (hbound'.symm.trans hbound)
      exact if_neg hcompatible

/-- The bound of a written clause is read again. -/
theorem read_boundChars {c : Clause} (h : c.Written) : read c.relation c.boundChars = .ok c := by
  have hcompatible : ¬(c.relation = .compatible ∧ c.bound.release.length < 2) :=
    fun hshort => absurd (h.compatible hshort.1) (Nat.not_le.2 hshort.2)
  refine read_eq_ok.2 ⟨c.bound, ?_, hcompatible, ?_⟩
  · rw [h.trimmed, h.bodyAndWildcard_boundChars, String.ofList_toList, h.bound]
  · rw [h.trimmed, h.bodyAndWildcard_boundChars, String.ofList_toList]

/-- A written clause is read again. -/
theorem ofTerm_chars {c : Clause} (h : c.Written) : ofTerm c.chars = .ok c := by
  have hsplit := c.relation.split?_sign (h.without_boundChars '=' (by decide))
  have hne : c.chars ≠ [] := by
    rw [chars_eq]
    exact List.append_ne_nil_of_left_ne_nil c.relation.sign_ne_nil _
  rw [← chars_eq] at hsplit
  obtain ⟨d, ds, hcons⟩ := List.exists_cons_of_ne_nil hne
  rw [hcons] at hsplit ⊢
  rw [ofTerm, hsplit]
  exact read_boundChars h

/-! ### What reading leaves -/

/-- What is read of a bound is written as it was. -/
theorem of_read {relation : Relation} {cs : List Char} {c : Clause} (h : read relation cs = .ok c) :
    c.Written ∧ c.relation = relation ∧ c.boundChars = trim cs := by
  obtain ⟨hjoin, hequality⟩ := bodyAndWildcard_join relation (trim cs)
  obtain ⟨bound, hbound, hcompatible, rfl⟩ := read_eq_ok.1 h
  have hchars : boundChars ⟨relation, String.ofList (bodyAndWildcard relation (trim cs)).1, bound,
      (bodyAndWildcard relation (trim cs)).2⟩ = trim cs := by
    rw [boundChars, String.toList_ofList]
    exact hjoin
  refine ⟨⟨hbound, ?_, hequality, fun hrelation => ?_⟩, rfl, hchars⟩
  · rw [hchars, trim_trim]
  · exact Nat.not_lt.1 fun hshort => hcompatible ⟨hrelation, hshort⟩

theorem written_of_ofTerm {cs : List Char} {c : Clause} (h : ofTerm cs = .ok c) : c.Written := by
  unfold ofTerm at h
  split at h
  next => cases h
  next =>
    split at h
    next => exact (of_read h).1
    next =>
      split at h
      next => exact (of_read h).1
      next => cases h

end Clause

/-! ### Shorthands -/

namespace Shorthand

theorem length_raiseAt (i : ℕ) (ns : List ℕ) : (raiseAt i ns).length = ns.length := by
  fun_induction raiseAt i ns with
  | case1 => rfl
  | case2 => rw [List.length_cons, List.length_map, List.length_cons]
  | case3 i n ns ih => rw [List.length_cons, ih, List.length_cons]

/-- The numbers of a bound are those of the release, the raised one and zero. -/
theorem mem_raiseAt {i m : ℕ} {ns : List ℕ} (h : m ∈ raiseAt i ns) :
    m ∈ ns ∨ m = ns.getD i 0 + 1 ∨ m = 0 := by
  fun_induction raiseAt i ns with
  | case1 => nomatch h
  | case2 n ns =>
    rcases List.mem_cons.1 h with rfl | h
    · exact Or.inr (Or.inl rfl)
    · obtain ⟨-, -, rfl⟩ := List.mem_map.1 h
      exact Or.inr (Or.inr rfl)
  | case3 i n ns ih =>
    rcases List.mem_cons.1 h with rfl | h
    · exact Or.inl (List.mem_cons_self ..)
    · exact (ih h).imp_left (List.mem_cons_of_mem n)

theorem epochText_eq (cs : List Char) : epochText cs = Spelling.epochChars (Spelling.epoch? cs).1 := by
  unfold epochText Spelling.epochChars
  cases (Spelling.epoch? cs).1 <;> rfl

/-- Before a digit stands no letter of a version. -/
theorem skipLetter_of_isDigit {cs : List Char} (h : (cs.headD ' ').isDigit = true) :
    Spelling.skipLetter cs = cs := by
  cases cs with
  | nil => rfl
  | cons c cs =>
    rw [List.headD_cons] at h
    rw [Spelling.skipLetter, if_neg]
    rw [Bool.or_eq_true, decide_eq_true_eq, decide_eq_true_eq]
    rintro (rfl | rfl) <;> exact absurd h (by decide)

theorem ceiling_ne_nil (kind : Shorthand) {parts : List ℕ} (h : parts ≠ []) :
    kind.ceiling parts ≠ [] := by
  rw [← List.length_pos_iff] at h ⊢
  rwa [ceiling, length_raiseAt]

/-- The numbers of an upper bound fit a word, if the raised one does not overflow it. -/
theorem le_maxWord_ceiling {kind : Shorthand} {parts : List ℕ} (h : ∀ n ∈ parts, n ≤ maxWord)
    (htop : parts.getD (kind.raised parts) 0 ≠ maxWord) : ∀ n ∈ kind.ceiling parts, n ≤ maxWord := by
  intro n hn
  rcases mem_raiseAt hn with hn | rfl | rfl
  · exact h n hn
  · refine Nat.lt_of_le_of_ne ?_ htop
    rw [List.getD_eq_getElem?_getD]
    cases hget : parts[kind.raised parts]? with
    | none => exact Nat.zero_le _
    | some n => exact h n (List.mem_of_getElem? hget)
  · exact Nat.zero_le _

/-- The epoch that is kept for the upper bound is that of the lower one. -/
theorem epochNumber_of_read {cs : List Char} {v : Version} (h : Version.read cs = .ok v)
    (htrim : trim cs = cs) (hdigit : (cs.headD ' ').isDigit = true) :
    Spelling.epochNumber (Spelling.epoch? cs).1 = .ok v.epoch := by
  obtain ⟨s, hs, hversion⟩ := Version.of_read h
  rw [htrim] at hs
  have hepoch := (Spelling.of_read? hs).1
  rw [skipLetter_of_isDigit hdigit] at hepoch
  rw [← hepoch]
  exact (Spelling.of_version hversion).1

/-- A shorthand stands for two clauses, whose bounds denote what their texts do. -/
theorem written_of_expand {kind : Shorthand} {cs : List Char} {clauses : List Clause}
    (h : kind.expand cs = .ok clauses) : clauses ≠ [] ∧ ∀ c ∈ clauses, c.Written := by
  obtain ⟨lower, hlower, h⟩ := Outcome.of_bind h
  obtain ⟨hwritten, hrelation, hchars⟩ := Clause.of_read hlower
  have htext : lower.text.toList = trim cs := by
    have hplain : lower.wildcard = false := by
      rw [Bool.eq_false_iff]
      intro hwildcard
      have hequality := hwritten.wildcard hwildcard
      rw [hrelation] at hequality
      nomatch hequality
    rw [Clause.boundChars, hplain, if_neg Bool.false_ne_true, List.append_nil, trim_trim] at hchars
    exact hchars
  have hread := Outcome.of_mapError hwritten.bound
  rw [htext] at hread
  obtain ⟨hrelease, hword⟩ := Version.release_of_read hread
  split at h
  next => nomatch h
  next hdigit =>
    dsimp only at h
    split at h
    next => nomatch h
    next htop =>
      obtain rfl := Except.ok.inj h
      have hne : kind.ceiling (lower.bound.release.take 3) ≠ [] :=
        kind.ceiling_ne_nil fun hnil =>
          hrelease ((List.take_eq_nil_iff.1 hnil).resolve_left (by decide))
      have hnumber : ∀ e ∈ (Spelling.epoch? (trim cs)).1, Spelling.IsNumber e :=
        fun e he => Spelling.isNumber_epoch? he
      have hepoch := epochNumber_of_read hread (trim_trim cs) (by simpa using hdigit)
      have hceiling := Version.read_ofRelease hnumber hepoch hne
        (le_maxWord_ceiling (fun n hn => hword n (List.mem_of_mem_take hn)) htop)
      refine ⟨List.cons_ne_nil _ _, List.forall_mem_cons.2 ⟨hwritten, List.forall_mem_singleton.2 ?_⟩⟩
      rw [epochText_eq]
      refine ⟨?_, ?_, nofun, nofun⟩
      · rw [Version.parse, String.toList_ofList, hceiling]
        rfl
      · rw [Clause.boundChars, if_neg Bool.false_ne_true, List.append_nil, String.toList_ofList]
        exact trim_of_blankless (Spelling.blankless_release hnumber hne)

end Shorthand

namespace Range

open Clause

theorem written_of_terms {cs : List Char} {clauses : List Clause}
    (h : clausesOf.terms cs = .ok clauses) : clauses ≠ [] ∧ ∀ c ∈ clauses, c.Written := by
  constructor
  · rintro rfl
    exact List.splitOn_ne_nil ',' cs (List.length_eq_zero_iff.1 (Outcome.length_of_mapM h).symm)
  · intro c hc
    obtain ⟨term, -, hterm⟩ := Outcome.mem_of_mapM h hc
    exact written_of_ofTerm hterm

/-- What is read of a range is written clauses, at least one. -/
theorem written_of_clausesOf {cs : List Char} {clauses : List Clause}
    (h : clausesOf cs = .ok clauses) : clauses ≠ [] ∧ ∀ c ∈ clauses, c.Written := by
  unfold clausesOf at h
  split at h
  next => exact Shorthand.written_of_expand h
  next => exact written_of_terms h
  next => exact Shorthand.written_of_expand h
  next => exact written_of_terms h

theorem mapM_chars {clauses : List Clause} (h : ∀ c ∈ clauses, c.Written) :
    (clauses.map Clause.chars).mapM (fun term => ofTerm (trim term)) = .ok clauses := by
  induction clauses with
  | nil => rfl
  | cons c clauses ih =>
    obtain ⟨hc, h⟩ := List.forall_mem_cons.1 h
    rw [List.map_cons, List.mapM_cons, hc.trim_chars, ofTerm_chars hc, ih h]
    rfl

/-- A text that starts with a sign is no shorthand. -/
theorem clausesOf_sign (r : Relation) (cs : List Char) :
    clausesOf (r.sign.toList ++ cs) = clausesOf.terms (r.sign.toList ++ cs) := by
  cases r <;> rfl

/-- The normal text starts with the sign of its first clause and ends in no blank. -/
theorem exists_sign_append {c : Clause} {clauses : List Clause} (h : ∀ d ∈ c :: clauses, d.Written) :
    ∃ rest, [','].intercalate ((c :: clauses).map Clause.chars) = c.relation.sign.toList ++ rest ∧
      Ended rest := by
  induction clauses generalizing c with
  | nil =>
    exact ⟨c.boundChars, (List.intercalate_singleton ..).trans c.chars_eq,
      (h c (List.mem_cons_self ..)).ended_boundChars⟩
  | cons d clauses ih =>
    obtain ⟨rest, hrest, hended⟩ := ih (List.forall_mem_cons.1 h).2
    refine ⟨c.boundChars ++ [','] ++ (d.relation.sign.toList ++ rest), ?_, ?_⟩
    · rw [List.map_cons, List.map_cons, List.intercalate_cons_cons, ← List.map_cons, hrest, chars_eq]
      simp only [List.append_assoc]
    · have hne : d.relation.sign.toList ++ rest ≠ [] :=
        List.append_ne_nil_of_left_ne_nil d.relation.sign_ne_nil _
      exact (ended_append hne).2 ((ended_word d.relation.blankless_sign).2 hended)

/-- The clauses are read again from the normal text. -/
theorem clausesOf_chars {clauses : List Clause} (hne : clauses ≠ []) (h : ∀ c ∈ clauses, c.Written) :
    clausesOf ([','].intercalate (clauses.map Clause.chars)) = .ok clauses := by
  obtain ⟨c, clauses, rfl⟩ := List.exists_cons_of_ne_nil hne
  obtain ⟨rest, hrest, -⟩ := exists_sign_append h
  have hplain : ∀ term ∈ (c :: clauses).map Clause.chars, ',' ∉ term := by
    intro term hterm
    obtain ⟨d, hd, rfl⟩ := List.mem_map.1 hterm
    exact (h d hd).comma_notMem
  rw [hrest, clausesOf_sign, ← hrest, clausesOf.terms,
    List.splitOn_intercalate ',' hplain (List.cons_ne_nil _ _)]
  exact mapM_chars h

/-- The normal text has no blank at its ends, and something else than a star. -/
theorem trim_chars {r : Range} (hne : r.clauses ≠ []) (h : ∀ c ∈ r.clauses, c.Written) :
    trim r.chars = r.chars ∧ r.chars ≠ [] ∧ r.chars ≠ ['*'] := by
  obtain ⟨c, clauses, hclauses⟩ := List.exists_cons_of_ne_nil hne
  rw [hclauses] at h
  obtain ⟨rest, hrest, hended⟩ := exists_sign_append h
  have hblankless := c.relation.blankless_sign
  rw [chars, hclauses, hrest]
  refine ⟨?_, List.append_ne_nil_of_left_ne_nil c.relation.sign_ne_nil _, fun hstar => ?_⟩
  · rw [trim_word hblankless c.relation.sign_ne_nil, trimEnd_eq_self_iff.2 hended]
  · have hhead := congrArg List.head? hstar
    cases hrelation : c.relation <;> rw [hrelation] at hhead <;> cases hhead

/-- A range is read again from its normal text, with the same clauses. -/
theorem parse_chars {text : String} {r : Range} (h : parse text = .ok r) :
    ∃ r', parse r.text = .ok r' ∧ r'.clauses = r.clauses := by
  rcases read_eq_ok h with ⟨rfl, -⟩ | ⟨hclauses, -⟩
  · exact ⟨any, rfl, rfl⟩
  obtain ⟨hne, hwritten⟩ := written_of_clausesOf hclauses
  obtain ⟨htrim, hnil, hstar⟩ := trim_chars hne hwritten
  refine ⟨⟨String.ofList r.chars, r.clauses⟩, ?_, rfl⟩
  rw [parse, Range.text, String.toList_ofList]
  exact read_of_clausesOf htrim hnil hstar (clausesOf_chars hne hwritten)

theorem accepts_congr {r r' : Range} (h : r'.clauses = r.clauses) (candidate : String) :
    r'.accepts candidate = r.accepts candidate := by
  rw [accepts, accepts, h]

/-- The normal text of a range that was read is accepted, is its own normal text, and lets the same
candidates through, or refuses them alike; so do all ranges that count as equal to it. -/
theorem parse_text (text : String) (r : Range) (h : parse text = .ok r) :
    (∃ r', parse r.text = .ok r' ∧ r'.text = r.text ∧
      ∀ candidate, r'.accepts candidate = r.accepts candidate) ∧
    ∀ other r', parse other = .ok r' → (r' == r) = true →
      ∀ candidate, r'.accepts candidate = r.accepts candidate := by
  obtain ⟨n, hn, hclauses⟩ := parse_chars h
  refine ⟨⟨n, hn, ?_, accepts_congr hclauses⟩, fun other r' hother hequal => ?_⟩
  · rw [Range.text, Range.text, chars, chars, hclauses]
  · -- Ranges with one normal text have the clauses that are read from it.
    obtain ⟨n', hn', hclauses'⟩ := parse_chars hother
    have hchars : r'.chars = r.chars := eq_of_beq hequal
    rw [Range.text, hchars, ← Range.text, hn] at hn'
    refine accepts_congr ?_
    rw [← hclauses', ← hclauses, Except.ok.inj hn']

/-- A shorthand with an epoch, whose upper bound is spelled out in its normal text. -/
def epochShorthand : Range where
  written := "^ 1!0.2-RC"
  clauses := [
    ⟨.atLeast, "1!0.2-RC", ⟨1, [0, 2], some (.candidate, 0), none, none, none⟩, false⟩,
    ⟨.less, "1!0.3", Version.ofRelease 1 [0, 3], false⟩]

/-- The same range in its normal text, but for blanks. -/
def epochBounds : Range :=
  { epochShorthand with written := ">= 1!0.2-RC , <1!0.3" }

/-- Both are read as two bounds, between which a release is accepted, but not the upper one. -/
theorem parse_text_epochShorthand :
    parse " ^ 1!0.2-RC" = .ok epochShorthand ∧ epochShorthand.text = ">=1!0.2-RC,<1!0.3" ∧
      (∃ r, parse ">=1!0.2-RC,<1!0.3" = .ok r ∧ r.text = ">=1!0.2-RC,<1!0.3" ∧
        ∀ candidate, r.accepts candidate = epochShorthand.accepts candidate) ∧
      parse ">= 1!0.2-RC , <1!0.3" = .ok epochBounds ∧ (epochBounds == epochShorthand) = true ∧
        (∀ candidate, epochBounds.accepts candidate = epochShorthand.accepts candidate) ∧
          epochBounds.accepts "1!0.2" = .ok true ∧ epochBounds.accepts "1!0.3" = .ok false := by
  have hparse : parse " ^ 1!0.2-RC" = .ok epochShorthand := rfl
  have hbounds : parse ">= 1!0.2-RC , <1!0.3" = .ok epochBounds := rfl
  obtain ⟨hnormal, hequal⟩ := parse_text _ _ hparse
  exact ⟨hparse, rfl, hnormal, hbounds, rfl, hequal _ _ hbounds rfl, rfl, rfl⟩

end Range

end Requisite
