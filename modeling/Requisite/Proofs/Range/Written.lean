import Mathlib.Data.List.Chain
import Requisite.Proofs.Outcome
import Requisite.Proofs.Requirement.Options
import Requisite.Proofs.Version.Spelling
import Requisite.Requirement.Parser

/-!
# The text that a range was written as

A range keeps the text that it was read from.  This text has few characters, no option stands in it,
and a requirement that ends in it is read as the same range again.

* `Range.Tame` — the texts that ranges are written as, and parts of them;
* **`Range.tame_of_clausesOf`** — a text that has clauses is one of them;
* **`Range.readRange_written`** — a range is read again from what it was written as.
-/

namespace Requisite

open Text Options

namespace Range

/-- A character that ranges are written with. -/
def isRangeChar (c : Char) : Bool :=
  Spelling.isVersionChar c || isBlank c || "=~!<>^*,".toList.contains c

/-- A text of such characters in which no hyphen comes first or follows a blank. -/
def Tame (cs : List Char) : Prop :=
  (∀ c ∈ cs, isRangeChar c = true) ∧ (' ' :: cs).IsChain fun c d => isBlank c = true → d ≠ '-'

theorem tame_nil : Tame [] :=
  ⟨nofun, .singleton _⟩

theorem Tame.append {cs ds : List Char} (hcs : Tame cs) (hds : Tame ds) : Tame (cs ++ ds) := by
  refine ⟨fun c hc => ?_, ?_⟩
  · rcases List.mem_append.1 hc with hc | hc
    · exact hcs.1 c hc
    · exact hds.1 c hc
  · rw [← List.cons_append, List.isChain_append]
    refine ⟨hcs.2, hds.2.tail, fun c _ d hd _ => ?_⟩
    cases ds with
    | nil => nomatch hd
    | cons e ds =>
      rw [List.head?_cons, Option.mem_some_iff] at hd
      rw [← hd]
      exact (List.isChain_cons_cons.1 hds.2).1 rfl

/-- A word that does not start with a hyphen. -/
theorem tame_of_word {cs : List Char} (h : ∀ c ∈ cs, isRangeChar c = true ∧ isBlank c = false)
    (hhead : cs.head? ≠ some '-') : Tame cs := by
  refine ⟨fun c hc => (h c hc).1, ?_⟩
  cases cs with
  | nil => exact .singleton _
  | cons c cs =>
    refine List.isChain_cons_cons.2 ⟨fun _ hc => hhead (congrArg some hc), ?_⟩
    have hword : ∀ d ∈ c :: cs, isBlank d = false := fun d hd => (h d hd).2
    clear h hhead
    induction cs generalizing c with
    | nil => exact .singleton _
    | cons d cs ih =>
      obtain ⟨hc, hword⟩ := List.forall_mem_cons.1 hword
      refine List.isChain_cons_cons.2 ⟨fun hblank => ?_, ih d hword⟩
      rw [hc] at hblank
      nomatch hblank

/-- The signs that ranges are written with. -/
theorem isRangeChar_of_mem : ∀ c ∈ "=~!<>^*,.".toList, isRangeChar c = true ∧ isBlank c = false := by
  decide

theorem tame_of_signs {cs : List Char} (h : cs ⊆ "=~!<>^*,.".toList) : Tame cs := by
  refine tame_of_word (fun c hc => isRangeChar_of_mem c (h hc)) fun hhead => ?_
  exact absurd (h (List.mem_of_mem_head? hhead)) (by decide)

/-- No sign of a bracket, a target or a marker stands in the text of a range. -/
theorem Tame.without {cs : List Char} (h : Tame cs) :
    Without ['[', ']', '(', '@', ';', '/', ':'] cs :=
  without_of_forall h.1 (by decide)

theorem Tame.cons_blank {c : Char} {cs : List Char} (hc : isBlank c = true) (h : Tame cs) :
    Tame (c :: cs) := by
  obtain ⟨hchars, hchain⟩ := h
  refine ⟨List.forall_mem_cons.2 ⟨?_, hchars⟩, List.isChain_cons_cons.2 ⟨?_, ?_⟩⟩
  · rw [isRangeChar, hc, Bool.or_true, Bool.true_or]
  · rintro - rfl
    nomatch hc
  · cases cs with
    | nil => exact .singleton _
    | cons d cs =>
      obtain ⟨hd, hchain⟩ := List.isChain_cons_cons.1 hchain
      exact List.isChain_cons_cons.2 ⟨fun _ => hd rfl, hchain⟩

theorem tame_of_blanks {cs : List Char} (h : ∀ c ∈ cs, isBlank c = true) : Tame cs := by
  induction cs with
  | nil => exact tame_nil
  | cons c cs ih =>
    obtain ⟨hc, h⟩ := List.forall_mem_cons.1 h
    exact (ih h).cons_blank hc

theorem tame_of_trim {cs : List Char} (h : Tame (trim cs)) : Tame cs := by
  obtain ⟨a, b, hcs, ha, hb⟩ := exists_blanks_trim cs
  rw [hcs]
  exact ((tame_of_blanks ha).append h).append (tame_of_blanks hb)

theorem tame_intercalate {ls : List (List Char)} (h : ∀ l ∈ ls, Tame l) :
    Tame ([','].intercalate ls) := by
  induction ls with
  | nil => exact tame_nil
  | cons l ls ih =>
    obtain ⟨hl, h⟩ := List.forall_mem_cons.1 h
    cases ls with
    | nil => rwa [List.intercalate_singleton]
    | cons l' ls =>
      have hcomma : Tame [','] := tame_of_signs (by decide)
      rw [List.intercalate_cons_cons]
      exact (hl.append hcomma).append (ih h)

/-- No option stands in the text of a range, also after a blank. -/
theorem Tame.free {cs : List Char} (h : Tame cs) : Free (' ' :: cs) := by
  obtain ⟨-, hchain⟩ := h
  generalize ' ' :: cs = ds at hchain
  induction hchain with
  | nil => trivial
  | singleton c => exact ⟨fun _ => rfl, trivial⟩
  | @cons_cons c d ds hcd _ ih =>
    refine ⟨fun hblank => option?_eq_none_of_head fun hhead => ?_, ih⟩
    exact hcd hblank (Option.some.inj hhead)

/-! ### The texts that have clauses -/

theorem tame_of_version {cs : List Char} {v : Version} (h : Version.read cs = .ok v) : Tame cs := by
  refine tame_of_trim ?_
  unfold Version.read at h
  split at h
  next s hread =>
    refine tame_of_word (fun c hc => ?_) ?_
    · have hchar := Spelling.isVersionChar_of_read? hread c hc
      rw [isRangeChar, hchar]
      exact ⟨rfl, Spelling.isBlank_of_isVersionChar hchar⟩
    · intro hhead
      obtain ⟨ds, hds⟩ := List.head?_eq_some_iff.1 hhead
      rw [hds, Spelling.read?_hyphen] at hread
      nomatch hread
  next => nomatch h

theorem tame_of_clause {relation : Relation} {cs : List Char} {c : Clause}
    (h : Clause.read relation cs = .ok c) : Tame cs := by
  refine tame_of_trim ?_
  unfold Clause.read at h
  dsimp only at h
  split at h
  next => nomatch h
  next bound hbound =>
    have hbody := Outcome.of_mapError hbound
    rw [String.toList_ofList] at hbody
    have htame := tame_of_version hbody
    split at htame
    next body hbefore =>
      split at htame
      next =>
        have hwildcard : Tame ".*".toList := tame_of_signs (by decide)
        rw [before?_eq_some.1 hbefore]
        exact htame.append hwildcard
      next => exact htame
    next => exact htame

theorem tame_sign : ∀ sign ∈ Relation.signs, Tame sign.1.toList := by
  have hsigns : ∀ sign ∈ Relation.signs, sign.1.toList ⊆ "=~!<>^*,.".toList := by
    decide
  exact fun sign hsign => tame_of_signs (hsigns sign hsign)

theorem tame_of_ofTerm {cs : List Char} {c : Clause} (h : Clause.ofTerm cs = .ok c) : Tame cs := by
  unfold Clause.ofTerm at h
  split at h
  next => cases h
  next =>
    split at h
    next relation rest hsplit =>
      obtain ⟨sign, hsign, hafter⟩ := List.exists_of_findSome?_eq_some hsplit
      obtain ⟨rest', hrest, heq⟩ := Option.map_eq_some_iff.1 hafter
      cases heq
      rw [after?_eq_some.1 hrest]
      exact (tame_sign sign hsign).append (tame_of_clause h)
    next =>
      split at h
      next => exact tame_of_clause h
      next => cases h

theorem tame_of_expand {kind : Shorthand} {cs : List Char} {clauses : List Clause}
    (h : kind.expand cs = .ok clauses) : Tame cs := by
  obtain ⟨c, hc, -⟩ := Outcome.of_bind h
  exact tame_of_trim (tame_of_clause hc)

theorem tame_of_terms {cs : List Char} {clauses : List Clause}
    (h : clausesOf.terms cs = .ok clauses) : Tame cs := by
  have hjoin : [','].intercalate (cs.splitOn ',') = cs := List.intercalate_splitOn ','
  rw [← hjoin]
  refine tame_intercalate fun term hterm => tame_of_trim ?_
  obtain ⟨c, hc⟩ := Outcome.of_mapM h hterm
  exact tame_of_ofTerm hc

/-- A text that has clauses is written like a range. -/
theorem tame_of_clausesOf {cs : List Char} {clauses : List Clause} (h : clausesOf cs = .ok clauses) :
    Tame cs := by
  have hlead : ∀ {c : Char} {ds : List Char}, [c] ⊆ "=~!<>^*,.".toList → Tame ds → Tame (c :: ds) :=
    fun hc hds => (tame_of_signs hc).append hds
  unfold clausesOf at h
  split at h
  next rest => exact hlead (by decide) (tame_of_expand h)
  next => exact tame_of_terms h
  next rest _ => exact hlead (by decide) (tame_of_expand h)
  next => exact tame_of_terms h

/-! ### Reading a range again -/

/-- A range was read from nothing or from `*`, or has the clauses of the text that it was read from. -/
theorem read_eq_ok {cs : List Char} {r : Range} (h : read cs = .ok r) :
    (r = any ∧ (trim cs = [] ∨ trim cs = ['*'])) ∨
      clausesOf (trim cs) = .ok r.clauses ∧ r.written = String.ofList (trim cs) ∧
        trim cs ≠ [] ∧ trim cs ≠ ['*'] := by
  unfold read at h
  dsimp only at h
  split at h
  next hany => exact Or.inl ⟨(Except.ok.inj h).symm, hany⟩
  next hne =>
    split at h
    next clauses hclauses =>
      cases h
      exact Or.inr ⟨hclauses, rfl, not_or.1 hne⟩
    next => nomatch h

theorem read_of_clausesOf {cs : List Char} {clauses : List Clause} (htrim : trim cs = cs)
    (hne : cs ≠ []) (hstar : cs ≠ ['*']) (h : clausesOf cs = .ok clauses) :
    read cs = .ok ⟨String.ofList cs, clauses⟩ := by
  unfold read
  rw [htrim]
  dsimp only
  rw [if_neg (not_or.2 ⟨hne, hstar⟩), h]

/-- A digit is no sign. -/
theorem ne_of_isDigit {c d : Char} (hc : c.isDigit = true) (hd : d.isDigit = false) : c ≠ d := by
  rintro rfl
  rw [hc] at hd
  nomatch hd

/-- A text that starts with the sign of no shorthand has the clauses between its commas. -/
theorem clausesOf_of_notMem {c : Char} (hc : c ∉ ['^', '~']) (cs : List Char) :
    clausesOf (c :: cs) = clausesOf.terms (c :: cs) := by
  unfold clausesOf
  split
  next h => cases h; exact absurd (by decide) hc
  next => rfl
  next h => cases h; exact absurd (by decide) hc
  next => rfl

theorem split?_of_notMem {c : Char} (hc : c ∉ ['=', '~', '!', '<', '>']) (cs : List Char) :
    Relation.split? (c :: cs) = none := by
  simp only [List.mem_cons, List.not_mem_nil, or_false, not_or] at hc
  simp [Relation.split?, Relation.signs, after?, strip?, hc]

theorem clausesOf_of_isDigit {c : Char} {cs : List Char} (hc : c.isDigit = true) :
    clausesOf (c :: cs) = clausesOf.terms (c :: cs) :=
  clausesOf_of_notMem (notMem_of_class hc (by decide)) cs

theorem split?_of_isDigit {c : Char} {cs : List Char} (hc : c.isDigit = true) :
    Relation.split? (c :: cs) = none :=
  split?_of_notMem (notMem_of_class hc (by decide)) cs

theorem split?_equal {c : Char} {cs : List Char} (hc : c.isDigit = true) :
    Relation.split? ('=' :: c :: cs) = some (.equal, c :: cs) := by
  have hne : ∀ d : Char, d.isDigit = false → c ≠ d := fun d => ne_of_isDigit hc
  simp [Relation.split?, Relation.signs, after?, strip?, hne]

theorem isBlank_of_isDigit {c : Char} (h : c.isDigit = true) : isBlank c = false :=
  isBlank_of_isDecimalDigit (isDecimalDigit_of_isDigit h)

/-- A version is the bound of an equality, also without the sign. -/
theorem ofTerm_equal {c : Char} (hc : c.isDigit = true) (cs : List Char) :
    Clause.ofTerm (trim ('=' :: c :: cs)) = Clause.ofTerm (trim (c :: cs)) := by
  have hblank := isBlank_of_isDigit hc
  rw [trim_cons rfl, trimEnd_cons hblank, trim_cons hblank]
  unfold Clause.ofTerm
  rw [split?_equal hc, split?_of_isDigit hc]
  dsimp only
  rw [if_pos hc]

/-- A range that starts with a version has the clauses that it has with a sign before it. -/
theorem clausesOf_equal {c : Char} (hc : c.isDigit = true) (cs : List Char) :
    clausesOf ('=' :: c :: cs) = clausesOf (c :: cs) := by
  have hcomma : c ≠ ',' := ne_of_isDigit hc rfl
  obtain ⟨term, terms, hfirst⟩ := exists_splitOn_cons hcomma cs
  have hsecond : ('=' :: c :: cs).splitOn ',' = ('=' :: c :: term) :: terms := by
    rw [List.splitOn_cons_eq_if_modifyHead, if_neg (by decide), hfirst]
    rfl
  rw [clausesOf_of_isDigit hc]
  show clausesOf.terms ('=' :: c :: cs) = clausesOf.terms (c :: cs)
  rw [clausesOf.terms, clausesOf.terms, hfirst, hsecond, List.mapM_cons, List.mapM_cons,
    ofTerm_equal hc]

/-- A text that starts with a letter has no clauses. -/
theorem isAlpha_of_clausesOf {c : Char} {cs : List Char} {clauses : List Clause}
    (h : clausesOf (c :: cs) = .ok clauses) : c.isAlpha = false := by
  rw [Bool.eq_false_iff]
  intro halpha
  have hblank : isBlank c = false := isBlank_of_isAlphanum (by rw [Char.isAlphanum, halpha]; rfl)
  have hcomma : c ∉ [','] := notMem_of_class halpha (by decide)
  obtain ⟨term, terms, hfirst⟩ := exists_splitOn_cons (List.ne_of_not_mem_cons hcomma) cs
  rw [clausesOf_of_notMem (notMem_of_class halpha (by decide))] at h
  obtain ⟨clause, hclause⟩ := Outcome.of_mapM h (by rw [hfirst]; exact List.mem_cons_self ..)
  rw [trim_cons hblank, Clause.ofTerm, split?_of_notMem (notMem_of_class halpha (by decide))] at hclause
  dsimp only at hclause
  split at hclause
  next hdigit => exact absurd halpha (Bool.eq_false_iff.1 (isAlpha_of_isDigit hdigit))
  next => nomatch hclause

theorem parse_of_readRange {cs : List Char} {r : Range} (h : readRange cs = .ok r) :
    ∃ text, parse text = .ok r := by
  refine ⟨String.ofList (if (cs.head?.map Char.isDigit).getD false then '=' :: cs else cs), ?_⟩
  rw [parse, String.toList_ofList]
  exact Outcome.of_mapError h

/-- Ranges with the same clauses are equal. -/
theorem beq_of_clauses {r r' : Range} (h : r'.clauses = r.clauses) : (r' == r) = true := by
  show (r'.chars == r.chars) = true
  rw [chars, chars, h, BEq.rfl]

/-- The text of a range is like a range, blanks at its ends apart. -/
theorem tame_of_parse {text : String} {r : Range} (h : parse text = .ok r) :
    Tame (trim text.toList) := by
  rcases read_eq_ok h with ⟨-, hnil | hstar⟩ | ⟨hclauses, -⟩
  · rw [hnil]
    exact tame_nil
  · rw [hstar]
    exact tame_of_signs (by decide)
  · exact tame_of_clausesOf hclauses

/-- The text of a range is read as the same range behind a name. -/
theorem readRange_trim {text : String} {r : Range} (h : parse text = .ok r) :
    ∃ r', readRange (trim text.toList) = .ok r' ∧ r'.clauses = r.clauses := by
  have htrim := trim_trim text.toList
  have hcases := read_eq_ok h
  generalize trim text.toList = cs at *
  rcases hcases with ⟨rfl, rfl | rfl⟩ | ⟨hclauses, -, hne, hstar⟩
  · exact ⟨any, rfl, rfl⟩
  · exact ⟨any, rfl, rfl⟩
  obtain ⟨c, cs, rfl⟩ := List.exists_cons_of_ne_nil hne
  unfold readRange
  dsimp only
  split
  next hdigit =>
    have hc : c.isDigit = true := hdigit
    have hequal : trim ('=' :: c :: cs) = '=' :: c :: cs := by
      rw [trim_cons (isBlank_of_isDigit hc)] at htrim
      rw [trim_cons rfl, trimEnd_cons (isBlank_of_isDigit hc), htrim]
    rw [read_of_clausesOf hequal (List.cons_ne_nil _ _) (fun h => nomatch h)
      ((clausesOf_equal hc cs).trans hclauses)]
    exact ⟨_, rfl, rfl⟩
  next =>
    rw [read_of_clausesOf htrim hne hstar hclauses]
    exact ⟨_, rfl, rfl⟩

/-- A range is read again from what it was written as. -/
theorem readRange_written {text : String} {r : Range} (h : parse text = .ok r)
    (hany : r.isAny = false) :
    ∃ r', readRange r.written.toList = .ok r' ∧ r'.clauses = r.clauses := by
  rcases read_eq_ok h with ⟨rfl, -⟩ | ⟨-, hwritten, -⟩
  · nomatch hany
  rw [hwritten, String.toList_ofList]
  exact readRange_trim h

/-- The written text of a range with clauses: trimmed, not empty, and like a range. -/
theorem tame_written {text : String} {r : Range} (h : parse text = .ok r) (hany : r.isAny = false) :
    Tame r.written.toList ∧ trim r.written.toList = r.written.toList ∧ r.written.toList ≠ [] := by
  rcases read_eq_ok h with ⟨rfl, -⟩ | ⟨hclauses, hwritten, hne, -⟩
  · nomatch hany
  rw [hwritten, String.toList_ofList]
  exact ⟨tame_of_clausesOf hclauses, trim_trim _, hne⟩

end Range
end Requisite
