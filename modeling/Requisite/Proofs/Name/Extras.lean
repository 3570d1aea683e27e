import Requisite.Proofs.Outcome
import Requisite.Proofs.Text.Pieces
import Requisite.Requirement.Parser

/-!
# Names with extras

A name may have extras in a bracket behind it.  Which texts are names with extras is told by the text
alone: how it may be put together, and not how it is taken apart.

* `Name.IsPackageName` — the form of a package name;
* `Name.Bracketed` — a text that is put together from a head and the entries of a bracket;
* **`Name.entries?_eq_some_iff`**, **`Name.bracket?_eq_some_iff`** — a text is taken apart as it was
  put together, and in no other way;
* **`readName_reads_grammar`** — a name with extras is read exactly if its head is a package name, and
  every other text is refused for what is wrong with it.
-/

namespace Requisite

open Text

namespace Name

/-! ### Package names -/

/-- A package name: letters, digits and separators of ASCII, with a letter or a digit at both ends. -/
structure IsPackageName (cs : List Char) : Prop where
  ne_nil : cs ≠ []
  chars : ∀ c ∈ cs, c.isAlphanum = true ∨ c ∈ ['.', '_', '-']
  first : ∀ c ∈ cs.head?, c.isAlphanum = true
  last : ∀ c ∈ cs.getLast?, c.isAlphanum = true

theorem isNameChar_iff {c : Char} :
    isNameChar c = true ↔ c.isAlphanum = true ∨ c ∈ ['.', '_', '-'] := by
  simp only [isNameChar, isSeparator, Bool.or_eq_true, beq_iff_eq, List.mem_cons, List.not_mem_nil,
    or_false]
  tauto

theorem isValid_iff {cs : List Char} : isValid cs = true ↔ IsPackageName cs := by
  cases cs with
  | nil => exact ⟨nofun, fun h => absurd rfl h.ne_nil⟩
  | cons c cs =>
    have hlast : ((c :: cs).getLast?.map Char.isAlphanum).getD false = true ↔
        ∀ d ∈ (c :: cs).getLast?, d.isAlphanum = true := by
      cases h : (c :: cs).getLast? with
      | none => exact absurd (List.getLast?_eq_none_iff.1 h) (List.cons_ne_nil c cs)
      | some d => exact ⟨fun hd d' hd' => Option.mem_some_iff.1 hd' ▸ hd, fun hd => hd d rfl⟩
    have hchars : (c :: cs).all isNameChar = true ↔
        ∀ d ∈ c :: cs, d.isAlphanum = true ∨ d ∈ ['.', '_', '-'] := by
      rw [List.all_eq_true]
      exact forall₂_congr fun _ _ => isNameChar_iff
    simp only [isValid, Bool.and_eq_true, hlast, hchars]
    constructor
    · rintro ⟨⟨hfirst, hchars⟩, hlast⟩
      exact ⟨List.cons_ne_nil c cs, hchars, fun d hd => Option.mem_some_iff.1 hd ▸ hfirst, hlast⟩
    · intro h
      exact ⟨⟨h.first c rfl, h.chars⟩, h.last⟩

/-! ### Brackets -/

/-- The text of an entry between brackets and commas.  It may have blanks around it. -/
structure IsEntryText (cs : List Char) : Prop where
  ne_nil : trim cs ≠ []
  plain : Without ['[', ']', ','] cs

/-- A text that is put together from a head and the entries of a bracket. -/
inductive Bracketed : List Char → List Char → List (List Char) → Prop
  /-- There is no bracket and no entry. -/
  | bare {cs : List Char} (hplain : Without ['[', ']'] cs) : Bracketed cs cs []
  /-- There may be blanks behind the head, and the text ends with the bracket.  There is at least one
  entry, and the blanks around the entries do not count. -/
  | extended {head blanks : List Char} {texts : List (List Char)} (hhead : '[' ∉ head)
      (hended : Ended head) (hblanks : ∀ c ∈ blanks, isBlank c = true) (hne : texts ≠ [])
      (htexts : ∀ e ∈ texts, IsEntryText e) :
      Bracketed (head ++ blanks ++ '[' :: ([','].intercalate texts ++ [']'])) head (texts.map trim)

/-- The entries of a bracket are those that were written into it. -/
theorem entries?_eq_some_iff {inner : List Char} {extras : List (List Char)} :
    entries? inner = some extras ↔ ∃ texts, texts ≠ [] ∧ (∀ e ∈ texts, IsEntryText e) ∧
      inner = [','].intercalate texts ∧ extras = texts.map trim := by
  have hgood : ¬ (inner.contains '[' || inner.contains ']' ||
      ((inner.splitOn ',').map trim).any List.isEmpty) = true ↔
        ∀ e ∈ inner.splitOn ',', IsEntryText e := by
    simp only [Bool.or_eq_true, not_or, List.contains_iff_mem, List.any_eq_true, not_exists,
      not_and, List.forall_mem_map, List.isEmpty_iff]
    constructor
    · rintro ⟨⟨hopen, hclose⟩, hempty⟩ e he
      have hin := isInfix_of_mem_splitOn he
      refine ⟨hempty e he, ?_⟩
      simp only [without_cons, without_nil, and_true]
      exact ⟨fun hc => hopen (hin.subset hc), fun hc => hclose (hin.subset hc),
        notMem_of_mem_splitOn he⟩
    · intro h
      have hplain : Without ['[', ']'] ([','].intercalate (inner.splitOn ',')) :=
        Without.intercalate (fun e he => (h e he).plain.of_subset (by decide)) (by decide)
      rw [List.intercalate_splitOn] at hplain
      exact ⟨⟨hplain '[' (by decide), hplain ']' (by decide)⟩, fun e he => (h e he).ne_nil⟩
  constructor
  · intro h
    unfold entries? at h
    dsimp only at h
    split at h
    next => cases h
    next hbad =>
      cases h
      exact ⟨inner.splitOn ',', List.splitOn_ne_nil ',' inner, hgood.1 hbad,
        (List.intercalate_splitOn ',').symm, rfl⟩
  · rintro ⟨texts, hne, htexts, rfl, rfl⟩
    have hsplit : ([','].intercalate texts).splitOn ',' = texts :=
      List.splitOn_intercalate ',' (fun e he => (htexts e he).plain ',' (by decide)) hne
    rw [hsplit] at hgood
    unfold entries?
    dsimp only
    rw [hsplit, if_neg (hgood.2 htexts)]

theorem trim_eq_trimEnd {cs : List Char} (hstart : ∀ c ∈ cs.head?, isBlank c = false) :
    trim cs = trimEnd cs := by
  cases cs with
  | nil => rfl
  | cons c cs =>
    have hc := hstart c rfl
    rw [trim_cons hc, trimEnd_cons hc]

/-- A text that starts with no blank is taken apart as it was put together. -/
theorem bracket?_eq_some_iff {cs head : List Char} {extras : List (List Char)}
    (hstart : ∀ c ∈ cs.head?, isBlank c = false) :
    bracket? cs = some (head, extras) ↔ Bracketed cs head extras := by
  constructor
  · intro h
    unfold bracket? at h
    split at h
    next hcut =>
      split at h
      next => nomatch h
      next hclose =>
        cases h
        rw [List.contains_iff_mem] at hclose
        exact .bare (without_cons.2 ⟨cut_eq_none.1 hcut, without_cons.2 ⟨hclose, without_nil _⟩⟩)
    next front rest hcut =>
      simp only [Option.bind_eq_bind, Option.bind_eq_some_iff] at h
      obtain ⟨inner, hinner, extras', hentries, heq⟩ := h
      cases heq
      obtain ⟨rfl, hfront⟩ := cut_eq_some.1 hcut
      obtain ⟨texts, hne, htexts, rfl, rfl⟩ := entries?_eq_some_iff.1 hentries
      obtain rfl := before?_eq_some.1 hinner
      have htrim : trim front = trimEnd front := trim_eq_trimEnd fun c hc => hstart c (by
        obtain ⟨ds, rfl⟩ := List.head?_eq_some_iff.1 hc
        rfl)
      obtain ⟨blanks, hblanks, hblank⟩ := exists_blanks_trimEnd front
      have hended : Ended (trim front) := ended_trim front
      rw [htrim] at hended ⊢
      conv => arg 1; rw [hblanks]
      exact .extended (notMem_trimEnd hfront) hended hblank hne htexts
  · intro h
    cases h with
    | bare hplain =>
      unfold bracket?
      rw [cut_eq_none.2 (hplain '[' (by decide))]
      dsimp only
      rw [if_neg]
      rw [List.contains_iff_mem]
      exact hplain ']' (by decide)
    | @extended head blanks texts hhead hended hblanks hne htexts =>
      have hfront : '[' ∉ head ++ blanks := by
        rw [List.mem_append, not_or]
        exact ⟨hhead, fun hc => absurd (hblanks '[' hc) (by decide)⟩
      have htrim : trim (head ++ blanks) = head := by
        rw [trim_append_blanks hblanks, trim_eq_trimEnd, trimEnd_eq_self_iff.2 hended]
        intro c hc
        obtain ⟨ds, rfl⟩ := List.head?_eq_some_iff.1 hc
        exact hstart c rfl
      have hbefore : before? "]" ([','].intercalate texts ++ [']']) =
          some ([','].intercalate texts) := before?_eq_some.2 rfl
      have hentries := entries?_eq_some_iff.2 ⟨texts, hne, htexts, rfl, rfl⟩
      unfold bracket?
      rw [cut_append hfront]
      dsimp only
      rw [hbefore, Option.bind_eq_bind, Option.bind_some, hentries, Option.bind_eq_bind,
        Option.bind_some, htrim]

/-- A text is taken apart in one way at most. -/
theorem Bracketed.unique {cs head head' : List Char} {extras extras' : List (List Char)}
    (hstart : ∀ c ∈ cs.head?, isBlank c = false) (h : Bracketed cs head extras)
    (h' : Bracketed cs head' extras') : head = head' ∧ extras = extras' := by
  have hbracket := (bracket?_eq_some_iff hstart).2 h
  rw [(bracket?_eq_some_iff hstart).2 h', Option.some.injEq, Prod.mk.injEq] at hbracket
  exact ⟨hbracket.1.symm, hbracket.2.symm⟩

end Name

/-! ### Names with extras -/

theorem isBlank_of_mem_head?_trim (cs : List Char) : ∀ c ∈ (trim cs).head?, isBlank c = false := by
  intro c hc
  have h := head?_trim cs
  rw [Option.mem_def.1 hc] at h
  exact Bool.eq_false_iff.2 fun hblank => h (congrArg some hblank)

theorem map_toList_eq_iff {strings : List String} {texts : List (List Char)} :
    strings.map String.toList = texts ↔ texts.map String.ofList = strings := by
  constructor <;> rintro rfl
  · simp
  · simp

theorem readName_of_forall_not_bracketed {cs : List Char}
    (h : ∀ head extras, ¬ Name.Bracketed (trim cs) head extras) :
    readName cs = .error (.extras (String.ofList cs)) := by
  have hnone : Name.bracket? (trim cs) = none := by
    rw [Option.eq_none_iff_forall_ne_some]
    rintro ⟨head, extras⟩ hbracket
    exact h head extras ((Name.bracket?_eq_some_iff (isBlank_of_mem_head?_trim cs)).1 hbracket)
  rw [readName, Name.splitExtras, hnone]
  rfl

/-- A text with a head and entries is read if the head is a package name, and refused for its head
otherwise. -/
theorem readName_of_bracketed {cs head : List Char} {extras : List (List Char)}
    (h : Name.Bracketed (trim cs) head extras) :
    readName cs = if Name.isValid head then .ok (String.ofList head, extras.map String.ofList)
      else .error (.invalid (String.ofList cs)
        (if head = [] then .nameMissing else .nameInvalid (String.ofList head))) := by
  have hsome := (Name.bracket?_eq_some_iff (isBlank_of_mem_head?_trim cs)).2 h
  rw [readName, Name.splitExtras, hsome]
  dsimp only
  split
  next => rfl
  next =>
    cases head with
    | nil => rfl
    | cons c head => rfl

theorem readName_eq_ok_iff {cs : List Char} {name : String} {extras : List String} :
    readName cs = .ok (name, extras) ↔ Name.IsPackageName name.toList ∧
      Name.Bracketed (trim cs) name.toList (extras.map String.toList) := by
  constructor
  · intro h
    have hsplit := Outcome.of_mapError h
    unfold Name.splitExtras at hsplit
    split at hsplit
    next => nomatch hsplit
    next head entries hbracket =>
      split at hsplit
      next hvalid =>
        obtain ⟨rfl, rfl⟩ := Prod.mk.inj (Except.ok.inj hsplit)
        rw [String.toList_ofList, map_toList_eq_iff.2 rfl]
        exact ⟨Name.isValid_iff.1 hvalid,
          (Name.bracket?_eq_some_iff (isBlank_of_mem_head?_trim cs)).1 hbracket⟩
      next => split at hsplit <;> nomatch hsplit
  · rintro ⟨hname, h⟩
    rw [readName_of_bracketed h, if_pos (Name.isValid_iff.2 hname), String.ofList_toList,
      map_toList_eq_iff.1 rfl]

/-- A text is refused for its brackets if it is not put together from a head and entries, and else for
a head that is no package name. -/
theorem readName_eq_error_iff {cs : List Char} {e : DependencyError} :
    readName cs = .error e ↔
      (e = .extras (String.ofList cs) ∧ ∀ head extras, ¬ Name.Bracketed (trim cs) head extras) ∨
      ∃ head extras, Name.Bracketed (trim cs) head extras ∧ ¬ Name.IsPackageName head ∧
        e = .invalid (String.ofList cs)
          (if head = [] then .nameMissing else .nameInvalid (String.ofList head)) := by
  constructor
  · intro h
    by_cases hnone : ∀ head extras, ¬ Name.Bracketed (trim cs) head extras
    · rw [readName_of_forall_not_bracketed hnone] at h
      exact Or.inl ⟨(Except.error.inj h).symm, hnone⟩
    · push Not at hnone
      obtain ⟨head, extras, hbracketed⟩ := hnone
      rw [readName_of_bracketed hbracketed] at h
      split at h
      next => nomatch h
      next hvalid =>
        exact Or.inr ⟨head, extras, hbracketed, fun hname => hvalid (Name.isValid_iff.2 hname),
          (Except.error.inj h).symm⟩
  · rintro (⟨rfl, hnone⟩ | ⟨head, extras, h, hname, rfl⟩)
    · exact readName_of_forall_not_bracketed hnone
    · rw [readName_of_bracketed h, if_neg fun hvalid => hname (Name.isValid_iff.1 hvalid)]

/-- A name with extras is read exactly if, but for blanks around it, it is a package name, alone or
with a bracket at the end that has entries, and what is read are the name and the entries.  Every other
text is refused.  A text is put together in one way at most. -/
theorem readName_reads_grammar (cs : List Char) :
    (∀ name extras, readName cs = .ok (name, extras) ↔ Name.IsPackageName name.toList ∧
      Name.Bracketed (trim cs) name.toList (extras.map String.toList)) ∧
    (∀ e, readName cs = .error e ↔
      (e = .extras (String.ofList cs) ∧ ∀ head extras, ¬ Name.Bracketed (trim cs) head extras) ∨
      ∃ head extras, Name.Bracketed (trim cs) head extras ∧ ¬ Name.IsPackageName head ∧
        e = .invalid (String.ofList cs)
          (if head = [] then .nameMissing else .nameInvalid (String.ofList head))) ∧
    ∀ head extras head' extras', Name.Bracketed (trim cs) head extras →
      Name.Bracketed (trim cs) head' extras' → head = head' ∧ extras = extras' :=
  ⟨fun _ _ => readName_eq_ok_iff, fun _ => readName_eq_error_iff,
    fun _ _ _ _ h h' => h.unique (isBlank_of_mem_head?_trim cs) h'⟩

/-- Blanks around everything and an entry twice, and a text with a second bracket. -/
theorem readName_reads_grammar_padded :
    Name.Bracketed (trim " bruv-kek    [ docs , internal,docs] ".toList) "bruv-kek".toList
      ["docs".toList, "internal".toList, "docs".toList] ∧
    ∀ head extras, ¬ Name.Bracketed (trim "kek[docs] [internal]".toList) head extras := by
  have hread : readName " bruv-kek    [ docs , internal,docs] ".toList =
      .ok ("bruv-kek", ["docs", "internal", "docs"]) := by decide +kernel
  have hrefused : readName "kek[docs] [internal]".toList =
      .error (.extras "kek[docs] [internal]") := by decide +kernel
  refine ⟨(((readName_reads_grammar _).1 _ _).1 hread).2, ?_⟩
  rcases ((readName_reads_grammar _).2.1 _).1 hrefused with ⟨-, hnone⟩ | ⟨head, extras, -, -, h⟩
  · exact hnone
  · nomatch h

end Requisite
