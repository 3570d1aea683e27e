import Mathlib
import Requisite.Proofs.Marker.Extras
import Requisite.Proofs.Marker.Parsing
import Requisite.Proofs.Marker.Splicing

/-!
# Reading what is written

A condition that was read can be written, and what is written is read again.  Parentheses are written
around an alternative within a conjunction only, so that what is read is the spliced condition: the
text does not show where conjunctions, or alternatives, were grouped.

* `Token.Written` — a text is read as some tokens wherever a blank or `)` follows it;
* **`Marker.written_option`** and its companions — the derivation that a condition is written as;
* **`Marker.parse_toString_spliced`** — the written condition is read as the spliced one, which is
  written and evaluates alike.
-/

namespace Requisite

open Text

namespace Token

open Phrase

/-- A blank or a closing parenthesis comes first, if anything does. -/
def Apart (cs : List Char) : Prop :=
  ∀ c ∈ cs.head?, c = ' ' ∨ c = ')'

/-- A text is read as some tokens, whatever comes after it apart from it. -/
def Written (cs : List Char) (ts : List Token) : Prop :=
  ∀ rest, Apart rest → Lexes (cs ++ rest) ts rest

theorem endsBefore_of_apart (t : Token) {cs : List Char} (h : Apart cs) : t.EndsBefore cs := by
  have hword : ∀ c ∈ cs.head?, continuesWord c = false := by
    intro c hc
    rcases h c hc with rfl | rfl <;> rfl
  have hsign : cs.head? ≠ some '=' := by
    intro hc
    rcases h '=' hc with h | h <;> nomatch h
  cases t with
  | comparator op => cases op <;> first | exact hsign | exact trivial
  | word name => exact hword
  | and => exact hword
  | or => exact hword
  | _ => exact trivial

theorem Lexeme.written {w : List Char} {t : Token} (h : Lexeme w t) : Written w [t] :=
  fun rest hrest => .token h (endsBefore_of_apart t hrest) (.stop rest)

theorem Written.spaced {cs ds : List Char} {ts us : List Token} (h : Written cs ts)
    (h' : Written ds us) : Written (cs ++ ' ' :: ds) (ts ++ us) := by
  intro rest hrest
  rw [List.append_assoc]
  refine (h _ fun c hc => ?_).append (.blank rfl (h' rest hrest))
  cases hc
  exact Or.inl rfl

theorem Written.enclosed {cs : List Char} {ts : List Token} (h : Written cs ts) :
    Written (Marker.enclosed cs) (.opening :: ts ++ [.closing]) := by
  intro rest hrest
  have hclosing : Lexes (')' :: rest) [.closing] rest := .token .closing trivial (.stop rest)
  have hinner : Lexes (cs ++ ')' :: rest) (ts ++ [.closing]) rest := by
    refine (h _ fun c hc => ?_).append hclosing
    cases hc
    exact Or.inr rfl
  have hopening : Lexes ('(' :: (cs ++ ')' :: rest)) (.opening :: (ts ++ [.closing])) rest :=
    .token .opening trivial hinner
  have hassoc : Marker.enclosed cs ++ rest = '(' :: (cs ++ ')' :: rest) := by simp [Marker.enclosed]
  rw [hassoc]
  exact hopening

end Token

/-! ### Comparisons -/

/-- The operand can be written: a text has one kind of quotes at most. -/
def Operand.Quotable : Operand → Prop
  | .literal text => '"' ∉ text.toList ∨ '\'' ∉ text.toList
  | _ => True

theorem Operand.lexeme {o : Operand} (h : o.Quotable) : Token.Lexeme o.chars o.token := by
  cases o with
  | «variable» v =>
    have hname : String.ofList v.name.toList = v.name := String.ofList_toList
    rw [token, ← hname]
    refine .word ?_ ?_
    · cases v <;> exact .intro rfl (by decide)
    · cases v <;> decide
  | extra => exact .word (.intro rfl (by decide)) (by decide)
  | literal text =>
    have htext : String.ofList text.toList = text := String.ofList_toList
    rw [token, chars, ← htext]
    split
    next hquote =>
      rw [String.toList_ofList] at hquote ⊢
      exact .text (Or.inr rfl) (h.resolve_left fun hnot => hnot hquote)
    next hquote =>
      rw [String.toList_ofList] at hquote ⊢
      exact .text (Or.inl rfl) hquote

/-- Both sides of the comparison can be written. -/
def Comparison.Quotable (c : Comparison) : Prop :=
  c.lhs.Quotable ∧ c.rhs.Quotable

theorem Comparison.written {c : Comparison} (h : c.Quotable) :
    Token.Written c.chars (Phrase.comparisonTokens c) := by
  have hlhs : Token.Written c.lhs.chars [c.lhs.token] := (Operand.lexeme h.1).written
  have hop : Token.Written c.op.sign.toList [.comparator c.op] := (Token.Lexeme.comparator _).written
  have hrhs : Token.Written c.rhs.chars [c.rhs.token] := (Operand.lexeme h.2).written
  have hspaced := hlhs.spaced (hop.spaced hrhs)
  have hchars : c.chars = c.lhs.chars ++ ' ' :: (c.op.sign.toList ++ ' ' :: c.rhs.chars) := by
    simp [chars]
  rw [hchars]
  exact hspaced

/-! ### Joining derivations -/

namespace Phrase

/-- Two conjunctions with `and` between them. -/
def Conjunction.append : Conjunction → Conjunction → Conjunction
  | .only a, d => .and a d
  | .and a c, d => .and a (c.append d)

theorem Conjunction.tokens_append (c d : Conjunction) :
    (c.append d).tokens = c.tokens ++ .and :: d.tokens := by
  cases c with
  | only a => rfl
  | and a c =>
    rw [append, tokens, tokens_append c d, tokens, List.append_assoc, List.cons_append]

theorem Conjunction.parts_append (c d : Conjunction) :
    (c.append d).parts = c.parts ++ d.parts := by
  cases c with
  | only a => rfl
  | and a c => rw [append, parts, parts_append c d, parts, List.cons_append]

/-- Two conditions with `or` between them. -/
def Condition.append : Condition → Condition → Condition
  | .only c, d => .or c d
  | .or c more, d => .or c (more.append d)

theorem Condition.tokens_append (c d : Condition) :
    (c.append d).tokens = c.tokens ++ .or :: d.tokens := by
  cases c with
  | only c => rfl
  | or c more =>
    rw [append, tokens, tokens_append more d, tokens, List.append_assoc, List.cons_append]

theorem Condition.parts_append (c d : Condition) : (c.append d).parts = c.parts ++ d.parts := by
  cases c with
  | only c => rfl
  | or c more => rw [append, parts, parts_append more d, parts, List.cons_append]

end Phrase

/-! ### Conditions -/

namespace Marker

open Token Phrase

/-- All comparisons of the condition can be written. -/
def Quotable (m : Marker) : Prop :=
  ∀ c ∈ m.comparisons, c.Quotable

/-- The condition as it is written within a conjunction. -/
def part (m : Marker) : List Char :=
  if m.isAny then enclosed m.chars else m.chars

theorem conjuncts_cons (m : Marker) (ms : List Marker) :
    conjuncts (m :: ms) = conjuncts [m] ++ conjuncts ms := by
  cases m <;> simp [conjuncts]

theorem alternatives_cons (m : Marker) (ms : List Marker) :
    alternatives (m :: ms) = alternatives [m] ++ alternatives ms := by
  cases m <;> simp [alternatives]

mutual

/-- The derivation that a condition within a conjunction is written as. -/
theorem written_part : ∀ (m : Marker), m.Branching → m.Quotable →
    ∃ c : Conjunction, Written m.part c.tokens ∧ c.parts = conjuncts [m]
  | .compare c, _, hquote =>
    ⟨.only (.comparison c), c.written (hquote c (List.mem_singleton_self c)), by
      rw [Conjunction.parts, Atom.marker, conjuncts, conjuncts]⟩
  | .all ms, hbranch, hquote => by
    obtain ⟨c, hwritten, hparts⟩ := written_all ms (ne_nil_of_two_le hbranch.1) hbranch.2 hquote
    refine ⟨c, hwritten, ?_⟩
    rw [hparts, conjuncts, conjuncts, List.append_nil]
  | .any ms, hbranch, hquote => by
    obtain ⟨c, hwritten, hparts⟩ := written_any ms (ne_nil_of_two_le hbranch.1) hbranch.2 hquote
    refine ⟨.only (.enclosed c), hwritten.enclosed, ?_⟩
    have htwo : 2 ≤ (alternatives ms).length :=
      Nat.le_trans hbranch.1 (length_alternatives hbranch.2)
    rw [Conjunction.parts, Atom.marker, c.marker_eq_ofAny, hparts, ofAny_eq htwo, conjuncts,
      conjuncts]

/-- The derivation that a conjunction is written as. -/
theorem written_all : ∀ (ms : List Marker), ms ≠ [] → BranchingAll ms →
    (∀ c ∈ comparisonsOf ms, c.Quotable) →
      ∃ c : Conjunction, Written (all ms).chars c.tokens ∧ c.parts = conjuncts ms
  | [], h, _, _ => absurd rfl h
  | [m], _, hbranch, hquote => by
    obtain ⟨c, hwritten, hparts⟩ := written_part m hbranch.1 fun k hk =>
      hquote k (List.mem_append_left _ hk)
    have hchars : (all [m]).chars = m.part := by
      rw [chars, charsAnd, List.append_nil]
      rfl
    exact ⟨c, hchars ▸ hwritten, hparts⟩
  | m :: n :: ms, _, hbranch, hquote => by
    obtain ⟨c, hwritten, hparts⟩ := written_part m hbranch.1 fun k hk =>
      hquote k (List.mem_append_left _ hk)
    obtain ⟨d, hwritten', hparts'⟩ := written_all (n :: ms) (List.cons_ne_nil _ _) hbranch.2
      fun k hk => hquote k (List.mem_append_right _ hk)
    have hchars : (all (m :: n :: ms)).chars =
        m.part ++ ' ' :: ("and".toList ++ ' ' :: (all (n :: ms)).chars) := by
      rw [chars, charsAnd_eq (List.cons_ne_nil n ms)]
      rfl
    refine ⟨c.append d, ?_, ?_⟩
    · rw [hchars, Conjunction.tokens_append]
      exact hwritten.spaced (Lexeme.and.written.spaced hwritten')
    · rw [Conjunction.parts_append, hparts, hparts', conjuncts_cons m (n :: ms)]

/-- The derivation that a condition within an alternative is written as. -/
theorem written_option : ∀ (m : Marker), m.Branching → m.Quotable →
    ∃ c : Condition, Written m.chars c.tokens ∧ c.parts = alternatives [m]
  | .compare c, _, hquote =>
    ⟨.only (.only (.comparison c)), c.written (hquote c (List.mem_singleton_self c)), by
      rw [Condition.parts, Conjunction.marker, Atom.marker, alternatives, alternatives]⟩
  | .all ms, hbranch, hquote => by
    obtain ⟨c, hwritten, hparts⟩ := written_all ms (ne_nil_of_two_le hbranch.1) hbranch.2 hquote
    refine ⟨.only c, hwritten, ?_⟩
    have htwo : 2 ≤ (conjuncts ms).length := Nat.le_trans hbranch.1 (length_conjuncts hbranch.2)
    rw [Condition.parts, c.marker_eq_ofAll, hparts, ofAll_eq htwo, alternatives, alternatives]
  | .any ms, hbranch, hquote => by
    obtain ⟨c, hwritten, hparts⟩ := written_any ms (ne_nil_of_two_le hbranch.1) hbranch.2 hquote
    refine ⟨c, hwritten, ?_⟩
    rw [hparts, alternatives, alternatives, List.append_nil]

/-- The derivation that an alternative is written as. -/
theorem written_any : ∀ (ms : List Marker), ms ≠ [] → BranchingAll ms →
    (∀ c ∈ comparisonsOf ms, c.Quotable) →
      ∃ c : Condition, Written (any ms).chars c.tokens ∧ c.parts = alternatives ms
  | [], h, _, _ => absurd rfl h
  | [m], _, hbranch, hquote => by
    obtain ⟨c, hwritten, hparts⟩ := written_option m hbranch.1 fun k hk =>
      hquote k (List.mem_append_left _ hk)
    have hchars : (any [m]).chars = m.chars := by rw [chars, charsOr, List.append_nil]
    exact ⟨c, hchars ▸ hwritten, hparts⟩
  | m :: n :: ms, _, hbranch, hquote => by
    obtain ⟨c, hwritten, hparts⟩ := written_option m hbranch.1 fun k hk =>
      hquote k (List.mem_append_left _ hk)
    obtain ⟨d, hwritten', hparts'⟩ := written_any (n :: ms) (List.cons_ne_nil _ _) hbranch.2
      fun k hk => hquote k (List.mem_append_right _ hk)
    have hchars : (any (m :: n :: ms)).chars =
        m.chars ++ ' ' :: ("or".toList ++ ' ' :: (any (n :: ms)).chars) := by
      rw [chars, charsOr_eq (List.cons_ne_nil n ms)]
      rfl
    refine ⟨c.append d, ?_, ?_⟩
    · rw [hchars, Condition.tokens_append]
      exact hwritten.spaced (Lexeme.or.written.spaced hwritten')
    · rw [Condition.parts_append, hparts, hparts', alternatives_cons m (n :: ms)]

end

/-! ### What was read can be written -/

theorem comparisons_ofAll (ms : List Marker) : (ofAll ms).comparisons = comparisonsOf ms := by
  match ms with
  | [] => rfl
  | [m] => rw [ofAll, comparisonsOf, comparisonsOf, List.append_nil]
  | _ :: _ :: _ => rfl

theorem comparisons_ofAny (ms : List Marker) : (ofAny ms).comparisons = comparisonsOf ms := by
  match ms with
  | [] => rfl
  | [m] => rw [ofAny, comparisonsOf, comparisonsOf, List.append_nil]
  | _ :: _ :: _ => rfl

end Marker

namespace Phrase

open Marker

/-- Both sides of the comparison are among some tokens. -/
def ComparedIn (k : Comparison) (ts : List Token) : Prop :=
  k.lhs.token ∈ ts ∧ k.rhs.token ∈ ts

theorem ComparedIn.mono {k : Comparison} {ts us : List Token} (h : ComparedIn k ts)
    (hsub : ts ⊆ us) : ComparedIn k us :=
  ⟨hsub h.1, hsub h.2⟩

mutual

theorem Condition.comparedIn : ∀ (c : Condition) {k : Comparison}, k ∈ comparisonsOf c.parts →
    ComparedIn k c.tokens
  | .only c, k, hk => by
    rw [Condition.parts, comparisonsOf, comparisonsOf, List.append_nil, c.marker_eq_ofAll,
      comparisons_ofAll] at hk
    exact c.comparedIn hk
  | .or c more, k, hk => by
    rw [Condition.parts, comparisonsOf, c.marker_eq_ofAll, comparisons_ofAll] at hk
    rcases List.mem_append.1 hk with hk | hk
    · exact (c.comparedIn hk).mono (List.subset_append_left _ _)
    · exact (more.comparedIn hk).mono
        (List.Subset.trans (List.subset_cons_self _ _) (List.subset_append_right _ _))

theorem Conjunction.comparedIn : ∀ (c : Conjunction) {k : Comparison}, k ∈ comparisonsOf c.parts →
    ComparedIn k c.tokens
  | .only a, k, hk => by
    rw [Conjunction.parts, comparisonsOf, comparisonsOf, List.append_nil] at hk
    exact a.comparedIn hk
  | .and a more, k, hk => by
    rw [Conjunction.parts, comparisonsOf] at hk
    rcases List.mem_append.1 hk with hk | hk
    · exact (a.comparedIn hk).mono (List.subset_append_left _ _)
    · exact (more.comparedIn hk).mono
        (List.Subset.trans (List.subset_cons_self _ _) (List.subset_append_right _ _))

theorem Atom.comparedIn : ∀ (a : Atom) {k : Comparison}, k ∈ a.marker.comparisons →
    ComparedIn k a.tokens
  | .comparison c, k, hk => by
    obtain rfl := List.mem_singleton.1 hk
    simp [ComparedIn, Atom.tokens, comparisonTokens]
  | .enclosed c, k, hk => by
    rw [Atom.marker, c.marker_eq_ofAny, comparisons_ofAny] at hk
    exact (c.comparedIn hk).mono
      (List.Subset.trans (List.subset_cons_self _ _) (List.subset_append_left _ _))

end

end Phrase

namespace Marker

open Token Phrase

/-- A quoted text that was read has one kind of quotes at most. -/
theorem quotable_of_lexes {cs rest : List Char} {ts : List Token} (h : Lexes cs ts rest)
    {o : Operand} (ho : o.token ∈ ts) : o.Quotable := by
  induction h with
  | stop cs => nomatch ho
  | blank _ _ ih => exact ih ho
  | token hw _ _ ih =>
    rcases List.mem_cons.1 ho with ho | ho
    · cases o with
      | literal text =>
        rw [Operand.token] at ho
        cases ho
        cases hw with
        | text hq hvalue =>
          rw [Operand.Quotable, String.toList_ofList]
          rcases hq with rfl | rfl
          · exact Or.inl hvalue
          · exact Or.inr hvalue
      | _ => trivial
    · exact ih ho

theorem quotable_of_parse {text : String} {m : Marker} (h : parse text = .ok m) : m.Quotable := by
  obtain ⟨c, hlexes, rfl⟩ := parse_eq_ok_iff.1 h
  intro k hk
  rw [c.marker_eq_ofAny, comparisons_ofAny] at hk
  obtain ⟨hlhs, hrhs⟩ := c.comparedIn hk
  exact ⟨quotable_of_lexes hlexes hlhs, quotable_of_lexes hlexes hrhs⟩

theorem branching_of_parse {text : String} {m : Marker} (h : parse text = .ok m) : m.Branching := by
  obtain ⟨c, -, rfl⟩ := parse_eq_ok_iff.1 h
  exact c.branching

/-- A condition that can be written is read again as the spliced one. -/
theorem parse_toString {m : Marker} (hbranch : m.Branching) (hquote : m.Quotable) :
    parse (toString m) = .ok m.spliced := by
  obtain ⟨c, hwritten, hparts⟩ := written_option m hbranch hquote
  refine parse_eq_ok_iff.2 ⟨c, ?_, ?_⟩
  · have hlexes := hwritten [] nofun
    rw [List.append_nil] at hlexes
    show Lexes (String.ofList m.chars).toList c.tokens []
    rwa [String.toList_ofList]
  · rw [c.marker_eq_ofAny, hparts]
    cases m with
    | compare k => rw [alternatives, alternatives, ofAny, spliced]
    | all ms => rw [alternatives, alternatives, ofAny, spliced]
    | any ms =>
      have htwo : 2 ≤ (alternatives ms).length :=
        Nat.le_trans hbranch.1 (length_alternatives hbranch.2)
      rw [alternatives, alternatives, List.append_nil, ofAny_eq htwo, spliced]

/-- A condition that was read is written so that it is read again, as the condition in which no
conjunction stands directly within a conjunction and no alternative within an alternative, and as no
other.  The spliced condition is written as the first one was, and has the value of the first one, or
is refused for the same reason, in every environment and whatever extras are asked for. -/
theorem parse_toString_spliced (text : String) (m : Marker) (h : parse text = .ok m) :
    parse (toString m) = .ok m.spliced ∧ toString m.spliced = toString m ∧
      m.spliced.spliced = m.spliced ∧
      ∀ (env : Environment) (extras : Option Names),
        m.spliced.evaluate env extras = m.evaluate env extras := by
  have hbranch := branching_of_parse h
  have hagain := parse_toString hbranch (quotable_of_parse h)
  have hwritten : toString m.spliced = toString m :=
    congrArg String.ofList (chars_spliced hbranch)
  refine ⟨hagain, hwritten, ?_, fun env extras => evaluate_spliced env extras m⟩
  have htwice := parse_toString (branching_of_parse hagain) (quotable_of_parse hagain)
  rw [hwritten, hagain] at htwice
  exact (Except.ok.inj htwice).symm

/-- A condition with groups that need no parentheses, and a text with a quote in it. -/
def nested : String :=
  "(os_name == 'a\"b' or (extra == 'x' or python_version < \"3\"))"
    ++ " and (os_name == 'c' and os_name != 'd')"

/-- What `nested` is read as. -/
def nestedMarker : Marker :=
  .all [
    .any [
      .compare ⟨.variable .osName, .equal, .literal "a\"b"⟩,
      .any [
        .compare ⟨.extra, .equal, .literal "x"⟩,
        .compare ⟨.variable .pythonVersion, .less, .literal "3"⟩]],
    .all [
      .compare ⟨.variable .osName, .equal, .literal "c"⟩,
      .compare ⟨.variable .osName, .notEqual, .literal "d"⟩]]

theorem parse_toString_nested :
    toString nestedMarker =
        "(os_name == 'a\"b' or extra == \"x\" or python_version < \"3\")"
          ++ " and os_name == \"c\" and os_name != \"d\"" ∧
      parse (toString nestedMarker) = .ok nestedMarker.spliced :=
  ⟨by cbv, (parse_toString_spliced nested nestedMarker (by cbv)).1⟩

end Marker

end Requisite
