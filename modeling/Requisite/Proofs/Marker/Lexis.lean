import Mathlib.Data.List.TakeWhile
import Requisite.Marker.Token
import Requisite.Proofs.Text.Classes

/-!
# The words of markers

What the tokens of a marker are written as, said without the scanner: a parenthesis, a sign of
comparison and a quoted text are written in one way each, and a word is a run of letters that no
further letter follows.  Blanks may stand anywhere between two tokens.

* `Token.Lexeme` — a text is one token;
* `Token.Lexes` — a text starts with some tokens, and what comes after them;
* **`Token.scan_eq_ok_iff`** — the scanner finds the tokens that a text is made of, and no others;
* **`Token.scan_of_lexes`** — what comes after some tokens is scanned as if it stood alone.
-/

namespace Requisite

namespace Token

open Text

/-! ### What a token is written as -/

/-- A word: a letter or `_`, and the letters, digits, `_` and `.` that follow it. -/
inductive IsWord : List Char → Prop
  | intro {c : Char} {cs : List Char} (hstart : startsWord c = true)
      (hmore : ∀ d ∈ cs, continuesWord d = true) : IsWord (c :: cs)

/-- The words that join comparisons, and those that are no token at all. -/
def reserved : List (List Char) :=
  ["and".toList, "or".toList, "not".toList, "in".toList]

/-- A text is one token. -/
inductive Lexeme : List Char → Token → Prop
  | opening : Lexeme ['('] .opening
  | closing : Lexeme [')'] .closing
  | text {q : Char} {value : List Char} (hq : q = '"' ∨ q = '\'') (hvalue : q ∉ value) :
      Lexeme (q :: value ++ [q]) (.text (String.ofList value))
  | comparator (op : Comparator) : Lexeme op.sign.toList (.comparator op)
  | and : Lexeme "and".toList .and
  | or : Lexeme "or".toList .or
  | word {w : List Char} (hw : IsWord w) (hfree : w ∉ reserved) :
      Lexeme w (.word (String.ofList w))

/-- The token ends before a text: the text does not go on with it. -/
def EndsBefore : Token → List Char → Prop
  | .word _, cs | .and, cs | .or, cs => ∀ c ∈ cs.head?, continuesWord c = false
  | .comparator .less, cs | .comparator .greater, cs => cs.head? ≠ some '='
  | _, _ => True

/-- A text starts with some tokens, and `rest` comes after them. -/
inductive Lexes : List Char → List Token → List Char → Prop
  | stop (cs : List Char) : Lexes cs [] cs
  | blank {c : Char} {cs rest : List Char} {ts : List Token} (hc : isBlank c = true)
      (h : Lexes cs ts rest) : Lexes (c :: cs) ts rest
  | token {w cs rest : List Char} {t : Token} {ts : List Token} (hw : Lexeme w t)
      (hend : t.EndsBefore cs) (h : Lexes cs ts rest) : Lexes (w ++ cs) (t :: ts) rest

theorem Lexes.append {cs rest rest' : List Char} {ts ts' : List Token} (h : Lexes cs ts rest)
    (h' : Lexes rest ts' rest') : Lexes cs (ts ++ ts') rest' := by
  induction h with
  | stop cs => exact h'
  | blank hc _ ih => exact .blank hc (ih h')
  | token hw hend _ ih => exact .token hw hend (ih h')

/-! ### Finding a token -/

theorem isBlank_of_startsWord {c : Char} (h : startsWord c = true) : isBlank c = false := by
  simp only [startsWord, Bool.or_eq_true, beq_iff_eq] at h
  rcases h with h | rfl
  · exact isBlank_of_isAlphanum (by rw [Char.isAlphanum, h, Bool.true_or])
  · rfl

theorem ne_of_startsWord {c d : Char} (h : startsWord c = true) (hd : startsWord d = false) :
    c ≠ d := by
  rintro rfl
  rw [h] at hd
  nomatch hd

theorem ofWord_eq_ok {w : List Char} {t : Token} (hw : IsWord w) (h : ofWord w = .ok t) :
    Lexeme w t ∧ ∀ cs, t.EndsBefore cs ↔ ∀ c ∈ cs.head?, continuesWord c = false := by
  unfold ofWord at h
  split at h
  next hand =>
    cases h
    exact ⟨hand ▸ .and, fun cs => Iff.rfl⟩
  next hand =>
    split at h
    next hor =>
      cases h
      exact ⟨hor ▸ .or, fun cs => Iff.rfl⟩
    next hor =>
      split at h
      next => nomatch h
      next hnot =>
        cases h
        refine ⟨.word hw ?_, fun cs => Iff.rfl⟩
        rw [not_or] at hnot
        simp only [reserved, List.mem_cons, hand, hor, hnot.1, hnot.2, List.not_mem_nil, or_self,
          not_false_eq_true]

theorem ofWord_of_notMem {w : List Char} (hfree : w ∉ reserved) :
    ofWord w = .ok (.word (String.ofList w)) := by
  simp only [reserved, List.mem_cons, List.not_mem_nil, or_false, not_or] at hfree
  obtain ⟨hand, hor, hnot, hin⟩ := hfree
  rw [ofWord, if_neg hand, if_neg hor, if_neg (by rw [not_or]; exact ⟨hnot, hin⟩)]

/-- The first token of a text is written at its start, or the text starts with a blank. -/
theorem next_eq_ok {c : Char} {cs rest : List Char} {t : Option Token}
    (h : next c cs = .ok (t, rest)) : match t with
      | none => isBlank c = true ∧ rest = cs
      | some t => ∃ w, c :: cs = w ++ rest ∧ Lexeme w t ∧ t.EndsBefore rest := by
  unfold next at h
  split at h
  next hblank =>
    cases h
    exact ⟨hblank, rfl⟩
  split at h
  next hc =>
    cases h
    exact ⟨['('], by rw [hc]; rfl, .opening, trivial⟩
  split at h
  next hc =>
    cases h
    exact ⟨[')'], by rw [hc]; rfl, .closing, trivial⟩
  split at h
  next hq =>
    split at h
    next value rest' hcut =>
      cases h
      obtain ⟨hcs, hvalue⟩ := cut_eq_some.1 hcut
      refine ⟨c :: value ++ [c], ?_, .text hq hvalue, trivial⟩
      rw [hcs, List.append_assoc]
      rfl
    next => nomatch h
  split at h
  next hsign =>
    split at h
    next rest' =>
      rcases hsign with rfl | rfl | rfl | rfl <;> cases h
      · exact ⟨['=', '='], rfl, .comparator .equal, trivial⟩
      · exact ⟨['!', '='], rfl, .comparator .notEqual, trivial⟩
      · exact ⟨['<', '='], rfl, .comparator .atMost, trivial⟩
      · exact ⟨['>', '='], rfl, .comparator .atLeast, trivial⟩
    next hnot =>
      have hhead : cs.head? ≠ some '=' := by
        rintro hcs
        obtain ⟨rest', rfl⟩ := List.head?_eq_some_iff.1 hcs
        exact hnot rest' rfl
      rcases hsign with rfl | rfl | rfl | rfl <;> cases h
      · exact ⟨['<'], rfl, .comparator .less, hhead⟩
      · exact ⟨['>'], rfl, .comparator .greater, hhead⟩
  split at h
  next hstart =>
    cases hword : ofWord (c :: cs.takeWhile continuesWord) with
    | error e =>
      rw [hword] at h
      nomatch h
    | ok t' =>
      rw [hword] at h
      cases h
      have hw : IsWord (c :: cs.takeWhile continuesWord) :=
        .intro hstart fun d hd => List.mem_takeWhile_imp hd
      obtain ⟨hlexeme, hends⟩ := ofWord_eq_ok hw hword
      refine ⟨c :: cs.takeWhile continuesWord, ?_, hlexeme, (hends _).2 fun d hd => ?_⟩
      · rw [List.cons_append, List.takeWhile_append_dropWhile]
      · have hnot := List.head?_dropWhile_not continuesWord cs
        rw [Option.mem_def.1 hd] at hnot
        exact hnot
  next => nomatch h

/-- A word at the start of a text is taken as a whole if it ends there. -/
theorem next_of_isWord {w cs : List Char} (hw : IsWord w)
    (hstop : ∀ c ∈ cs.head?, continuesWord c = false) :
    ∃ c w', w = c :: w' ∧ next c (w' ++ cs) = (ofWord w).map fun t => (some t, cs) := by
  cases hw with
  | @intro c w' hstart hmore =>
    have hrest : cs.takeWhile continuesWord = [] ∧ cs.dropWhile continuesWord = cs := by
      cases cs with
      | nil => exact ⟨rfl, rfl⟩
      | cons d ds =>
        have hd : ¬continuesWord d = true := by
          rw [hstop d rfl]
          exact Bool.false_ne_true
        exact ⟨List.takeWhile_cons_of_neg hd, List.dropWhile_cons_of_neg hd⟩
    have hne : ∀ {d : Char}, startsWord d = false → c ≠ d := ne_of_startsWord hstart
    have hquote : ¬(c = '"' ∨ c = '\'') := not_or.2 ⟨hne rfl, hne rfl⟩
    have hsign : ¬(c = '=' ∨ c = '!' ∨ c = '<' ∨ c = '>') := by
      simp only [not_or]
      exact ⟨hne rfl, hne rfl, hne rfl, hne rfl⟩
    refine ⟨c, w', rfl, ?_⟩
    unfold next
    rw [isBlank_of_startsWord hstart, if_neg Bool.false_ne_true, if_neg (hne rfl),
      if_neg (hne rfl), if_neg hquote, if_neg hsign, if_pos hstart,
      List.takeWhile_append_of_pos hmore, List.dropWhile_append_of_pos hmore, hrest.1, hrest.2,
      List.append_nil]

/-- A sign that could go on with `=` is found alone where none follows. -/
theorem next_of_order {c : Char} {cs : List Char} (hc : c = '<' ∨ c = '>')
    (hend : cs.head? ≠ some '=') :
    next c cs = (ofSign c false).map fun t => (some t, cs) := by
  have hplain : isBlank c = false ∧ c ≠ '(' ∧ c ≠ ')' ∧ ¬(c = '"' ∨ c = '\'') := by
    rcases hc with rfl | rfl <;> decide
  unfold next
  rw [hplain.1, if_neg Bool.false_ne_true, if_neg hplain.2.1, if_neg hplain.2.2.1,
    if_neg hplain.2.2.2, if_pos (Or.inr (Or.inr hc))]
  split
  next rest => exact absurd rfl hend
  next => rfl

theorem next_of_sign (op : Comparator) {cs : List Char}
    (hend : (Token.comparator op).EndsBefore cs) :
    ∃ c w', op.sign.toList = c :: w' ∧ next c (w' ++ cs) = .ok (some (.comparator op), cs) := by
  cases op with
  | equal => exact ⟨'=', ['='], rfl, rfl⟩
  | notEqual => exact ⟨'!', ['='], rfl, rfl⟩
  | atMost => exact ⟨'<', ['='], rfl, rfl⟩
  | atLeast => exact ⟨'>', ['='], rfl, rfl⟩
  | less => exact ⟨'<', [], rfl, next_of_order (Or.inl rfl) hend⟩
  | greater => exact ⟨'>', [], rfl, next_of_order (Or.inr rfl) hend⟩

/-- A token at the start of a text is found if it ends there. -/
theorem next_of_lexeme {w cs : List Char} {t : Token} (hw : Lexeme w t) (hend : t.EndsBefore cs) :
    ∃ c w', w = c :: w' ∧ next c (w' ++ cs) = .ok (some t, cs) := by
  cases hw with
  | opening => exact ⟨'(', [], rfl, rfl⟩
  | closing => exact ⟨')', [], rfl, rfl⟩
  | @text q value hq hvalue =>
    refine ⟨q, value ++ [q], rfl, ?_⟩
    have hcut : cut q (value ++ [q] ++ cs) = some (value, cs) := by
      rw [List.append_assoc]
      exact cut_append hvalue cs
    have hblank : isBlank q = false := by rcases hq with rfl | rfl <;> rfl
    have hparen : q ≠ '(' ∧ q ≠ ')' := by rcases hq with rfl | rfl <;> decide
    unfold next
    rw [hblank, if_neg Bool.false_ne_true, if_neg hparen.1, if_neg hparen.2, if_pos hq, hcut]
  | comparator op => exact next_of_sign op hend
  | and => exact next_of_isWord (.intro rfl (by decide)) hend
  | or => exact next_of_isWord (.intro rfl (by decide)) hend
  | word hw hfree =>
    obtain ⟨c, w', hcons, hnext⟩ := next_of_isWord hw hend
    rw [ofWord_of_notMem hfree] at hnext
    exact ⟨c, w', hcons, hnext⟩

/-! ### Finding all tokens -/

theorem scan_cons (c : Char) (cs : List Char) :
    scan (c :: cs) = match next c cs with
      | .error problem => .error (.located problem (String.ofList (c :: cs)))
      | .ok (none, rest) => scan rest
      | .ok (some t, rest) => (scan rest).map ((t, c :: cs) :: ·) := by
  rw [scan]
  split
  next h => rw [h]
  next h => rw [h]
  next t rest h =>
    rw [h]
    show _ = (scan rest).map _
    cases scan rest <;> rfl

theorem scan_blank {c : Char} {cs : List Char} (hc : isBlank c = true) :
    scan (c :: cs) = scan cs := by
  have hnext : next c cs = .ok (none, cs) := by
    unfold next
    rw [if_pos hc]
  rw [scan_cons, hnext]

theorem scan_lexeme {w cs : List Char} {t : Token} (hw : Lexeme w t) (hend : t.EndsBefore cs) :
    scan (w ++ cs) = (scan cs).map ((t, w ++ cs) :: ·) := by
  obtain ⟨c, w', rfl, hnext⟩ := next_of_lexeme hw hend
  rw [List.cons_append, scan_cons, hnext]

/-- A text that starts with `not` or `in` has no tokens. -/
theorem scan_unsupported {w cs : List Char} (hw : w = "not".toList ∨ w = "in".toList)
    (hstop : ∀ c ∈ cs.head?, continuesWord c = false) :
    scan (w ++ cs) =
      .error (.located (.unsupported (String.ofList w)) (String.ofList (w ++ cs))) := by
  have hword : IsWord w := by
    rcases hw with rfl | rfl
    · exact .intro rfl (by decide)
    · exact .intro rfl (by decide)
  have hrefused : ofWord w = .error (.unsupported (String.ofList w)) := by
    rcases hw with rfl | rfl <;> rfl
  obtain ⟨c, w', rfl, hnext⟩ := next_of_isWord hword hstop
  rw [hrefused] at hnext
  rw [List.cons_append, scan_cons, hnext]
  rfl

/-- What comes after some tokens is scanned as if it stood alone. -/
theorem scan_of_lexes {cs rest : List Char} {ts : List Token} (h : Lexes cs ts rest) :
    ∃ us, us.map Prod.fst = ts ∧ scan cs = (scan rest).map (us ++ ·) := by
  induction h with
  | stop cs => exact ⟨[], rfl, by cases scan cs <;> rfl⟩
  | blank hc _ ih => rwa [scan_blank hc]
  | @token w cs rest t ts hw hend _ ih =>
    obtain ⟨us, rfl, hscan⟩ := ih
    refine ⟨(t, w ++ cs) :: us, rfl, ?_⟩
    rw [scan_lexeme hw hend, hscan]
    cases scan rest <;> rfl

theorem lexes_of_scan {cs : List Char} {us : List (Token × List Char)} (h : scan cs = .ok us) :
    Lexes cs (us.map Prod.fst) [] := by
  induction cs using scan.induct generalizing us with
  | case1 =>
    rw [scan] at h
    cases h
    exact .stop []
  | case2 c cs problem hnext =>
    rw [scan_cons, hnext] at h
    nomatch h
  | case3 c cs rest hnext ih =>
    obtain ⟨hblank, rfl⟩ := next_eq_ok hnext
    rw [scan_blank hblank] at h
    exact .blank hblank (ih h)
  | case4 c cs t rest hnext e he =>
    obtain ⟨w, hcs, hw, hend⟩ := next_eq_ok hnext
    rw [hcs, scan_lexeme hw hend, he] at h
    nomatch h
  | case5 c cs t rest hnext ts hts ih =>
    obtain ⟨w, hcs, hw, hend⟩ := next_eq_ok hnext
    rw [hcs, scan_lexeme hw hend, hts] at h
    cases h
    rw [hcs]
    exact .token hw hend (ih hts)

/-- The scanner finds the tokens that a text is made of, and no others. -/
theorem scan_eq_ok_iff {cs : List Char} {ts : List Token} :
    (∃ us, scan cs = .ok us ∧ us.map Prod.fst = ts) ↔ Lexes cs ts [] := by
  constructor
  · rintro ⟨us, h, rfl⟩
    exact lexes_of_scan h
  · intro h
    obtain ⟨us, hus, hscan⟩ := scan_of_lexes h
    rw [scan] at hscan
    exact ⟨us ++ [], hscan, by rw [List.append_nil, hus]⟩

/-- A text is made of one list of tokens. -/
theorem Lexes.unique {cs : List Char} {ts ts' : List Token} (h : Lexes cs ts [])
    (h' : Lexes cs ts' []) : ts = ts' := by
  obtain ⟨us, hus, rfl⟩ := scan_eq_ok_iff.2 h
  obtain ⟨us', hus', rfl⟩ := scan_eq_ok_iff.2 h'
  rw [hus] at hus'
  cases hus'
  rfl

end Token

end Requisite
