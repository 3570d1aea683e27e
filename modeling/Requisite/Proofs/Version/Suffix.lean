import Mathlib.Data.List.Find
import Requisite.Proofs.Version.Normal
import Requisite.Proofs.Version.Numeral

/-!
# Suffixes as they are written

A suffix is written with any of its labels, in any letter case, with or without a separator before and
behind the label, and with or without a number.  Some labels are beginnings of others, so that the
first one that matches is the one that was written only if the text behind it does not go on like a
longer label.  Where neither a separator nor a number stands behind the label, the separator of the
next suffix is taken instead, which the next suffix does not miss.

* `Mark` — a suffix as it is written;
* `Spelling.Follows` — the texts that may stand behind a label;
* `Spelling.Left`, `Spelling.Opens` — what a suffix leaves of the text behind it, and the texts that may
  be left without their separator;
* **`Text.stripOneOf?_eq`** — the first label that matches, as a search for a beginning;
* **`Mark.suffix?_chars`**, **`Mark.suffix?_eq_none`** — a suffix is read by its own labels, and not by
  those of another suffix.
-/

namespace Requisite

open Text

/-! ### The first label that matches -/

namespace Text

theorem stripLabel?_eq (label cs : List Char) : stripLabel? label cs =
    if label.isPrefixOf (cs.map fold) = true then some (cs.drop label.length) else none := by
  induction label generalizing cs with
  | nil => rfl
  | cons l label ih =>
    cases cs with
    | nil => rfl
    | cons c cs =>
      rw [stripLabel?, ih]
      by_cases h : fold c = l
      · simp [h]
      · simp [h, Ne.symm h]

/-- The first label that a text starts with is found by its letters, case ignored. -/
theorem stripOneOf?_eq (labels : List (List Char)) (cs : List Char) : stripOneOf? labels cs =
    (labels.find? (·.isPrefixOf (cs.map fold))).map fun label => (label, cs.drop label.length) := by
  induction labels with
  | nil => rfl
  | cons label labels ih =>
    rw [stripOneOf?, List.findSome?_cons, ← stripOneOf?, ih, stripLabel?_eq, List.find?_cons]
    cases label.isPrefixOf (cs.map fold) <;> rfl

/-- What stands behind a word does not matter to the label that it starts with, as long as no label
goes on with it. -/
theorem find?_isPrefixOf_append {labels : List (List Char)} {w rest : List Char}
    (h : ∀ label ∈ labels, ∀ c ∈ rest.head?, ¬w ++ [c] <+: label) :
    labels.find? (·.isPrefixOf (w ++ rest)) = labels.find? (·.isPrefixOf w) := by
  refine List.find?_congr fun label hlabel => ?_
  rw [Bool.eq_iff_iff, List.isPrefixOf_iff_prefix, List.isPrefixOf_iff_prefix]
  refine ⟨fun hprefix => ?_, fun hprefix => hprefix.trans (List.prefix_append w rest)⟩
  -- A label that is longer than the word would go on with the first character behind it.
  by_cases hlength : label.length ≤ w.length
  · exact List.prefix_of_prefix_length_le hprefix (List.prefix_append w rest) hlength
  · cases rest with
    | nil => rwa [List.append_nil] at hprefix
    | cons c rest =>
      refine absurd ?_ (h label hlabel c rfl)
      have hnext : w ++ [c] <+: w ++ c :: rest :=
        (List.prefix_append_right_inj w).2 ⟨rest, rfl⟩
      refine List.prefix_of_prefix_length_le hnext hprefix ?_
      rw [List.length_append, List.length_singleton]
      omega

/-! ### Letters -/

/-- A letter from A to Z, large or small. -/
def IsLetter (c : Char) : Prop :=
  (65 ≤ c.toNat ∧ c.toNat ≤ 90) ∨ (97 ≤ c.toNat ∧ c.toNat ≤ 122)

instance : DecidablePred IsLetter :=
  fun _ => inferInstanceAs (Decidable (_ ∨ _))

theorem isLetter_of_toLower {c : Char} (h : IsLetter c.toLower) : IsLetter c := by
  rcases toLower_cases c with hc | ⟨hc, -⟩
  · rwa [hc] at h
  · exact Or.inl hc

theorem fold_of_toNat_lt {c : Char} (h : c.toNat < 128) : fold c = c.toLower := by
  have hne : ∀ d : Char, 128 ≤ d.toNat → c ≠ d := by
    rintro d hd rfl
    omega
  rw [fold, if_neg (hne _ (by decide)), if_neg (hne _ (by decide))]

theorem IsLetter.fold {c : Char} (h : IsLetter c) : fold c = c.toLower := by
  apply fold_of_toNat_lt
  unfold IsLetter at h
  omega

theorem IsLetter.not_isDecimalDigit {c : Char} (h : IsLetter c) : isDecimalDigit c = false := by
  have hzero : ∀ first ∈ zeroDigits, first = 48 ∨ 128 ≤ first := by decide
  rw [Bool.eq_false_iff]
  intro hdigit
  rw [isDecimalDigit, Bool.or_eq_true, List.any_eq_true] at hdigit
  unfold IsLetter at h
  rcases hdigit with hdigit | ⟨first, hfirst, hc⟩
  · simp only [Char.isDigit, Bool.and_eq_true, decide_eq_true_eq, UInt32.le_iff_toNat_le,
      ge_iff_le] at hdigit
    change 48 ≤ c.toNat ∧ c.toNat ≤ 57 at hdigit
    omega
  · simp only [Bool.and_eq_true, decide_eq_true_eq] at hc
    have hplace := hzero first hfirst
    omega

theorem IsLetter.not_isSeparator {c : Char} (h : IsLetter c) : Spelling.isSeparator c = false := by
  rw [Bool.eq_false_iff]
  intro hsep
  simp only [Spelling.isSeparator, Bool.or_eq_true, beq_iff_eq] at hsep
  rcases hsep with (rfl | rfl) | rfl <;> exact absurd h (by decide)

end Text

namespace Spelling

/-! ### The labels of all suffixes -/

/-- The labels of all suffixes. -/
def suffixLabels : List (List Char) :=
  preLabels ++ (postLabels ++ devLabels)

theorem subset_suffixLabels {labels : List (List Char)}
    (h : labels ∈ [preLabels, postLabels, devLabels]) : labels ⊆ suffixLabels := by
  have hall : ∀ labels ∈ [preLabels, postLabels, devLabels], labels ⊆ suffixLabels := by
    decide
  exact hall labels h

/-- The letters that a label goes on with behind another one. -/
def furtherLetters : List Char :=
  ['c', 'e', 'l', 'v']

theorem isLetter_of_mem : ∀ label ∈ suffixLabels, ∀ c ∈ label, IsLetter c := by
  decide

theorem mem_furtherLetters : ∀ w ∈ suffixLabels, ∀ label ∈ suffixLabels,
    w.isPrefixOf label = true → ∀ c ∈ (label.drop w.length).head?, c ∈ furtherLetters := by
  decide

theorem notMem_furtherLetters : ∀ label ∈ postLabels ++ devLabels, ∀ c ∈ label.head?,
    c ∉ furtherLetters := by
  decide

/-- Among the labels of a suffix, none that matches stands before the one that was written. -/
theorem find?_labels : ∀ labels ∈ [preLabels, postLabels, devLabels], ∀ label ∈ labels,
    labels.find? (·.isPrefixOf label) = some label := by
  decide

/-- A text that may stand behind a label: no longer label goes on here, and no number. -/
structure Follows (rest : List Char) : Prop extends Behind rest where
  letter : ∀ c ∈ rest.head?, fold c ∉ furtherLetters

/-- A text whose separator may be missing: no number and no second separator stand behind it. -/
structure Opens (rest : List Char) : Prop where
  skip : skipSeparator (skipSeparator rest) = skipSeparator rest
  digit : ∀ c ∈ (skipSeparator rest).head?, isDecimalDigit c = false

/-- Where no letter stands, no suffix is read. -/
theorem suffix?_of_not_isLetter {labels : List (List Char)}
    (hlabels : labels ∈ [preLabels, postLabels, devLabels]) {cs : List Char}
    (h : ∀ c ∈ (skipSeparator cs).head?, ¬IsLetter (fold c)) : suffix? labels cs = none := by
  rw [suffix?, stripOneOf?_eq, List.find?_eq_none.2]
  · rfl
  intro label hlabel hprefix
  rw [List.isPrefixOf_iff_prefix] at hprefix
  have hletter := isLetter_of_mem label (subset_suffixLabels hlabels hlabel)
  cases label with
  | nil => exact absurd (subset_suffixLabels hlabels hlabel) (by decide)
  | cons l label =>
    obtain ⟨t, ht⟩ := hprefix
    cases hskip : skipSeparator cs with
    | nil =>
      rw [hskip] at ht
      cases ht
    | cons c ds =>
      rw [hskip] at h ht
      refine h c rfl ?_
      rw [← (List.cons.inj ht).1]
      exact hletter l List.mem_cons_self

theorem suffix?_labelChars {labels : List (List Char)}
    (hlabels : labels ∈ [preLabels, postLabels, devLabels]) (label : Option String) :
    suffix? labels (labelChars label) = none := by
  apply suffix?_of_not_isLetter hlabels
  cases label with
  | none => exact nofun
  | some l =>
    intro c hc
    rw [← Option.mem_some_iff.1 hc]
    decide

/-- No suffix is read where a number stands behind a hyphen. -/
theorem suffix?_dashed {labels : List (List Char)}
    (hlabels : labels ∈ [preLabels, postLabels, devLabels]) (n : Numeral) (rest : List Char) :
    suffix? labels ('-' :: (n.chars ++ rest)) = none := by
  apply suffix?_of_not_isLetter hlabels
  obtain ⟨d, ds, hchars, hd⟩ := n.exists_chars_cons
  show ∀ c ∈ (n.chars ++ rest).head?, ¬IsLetter (fold c)
  rw [hchars]
  intro c hc hletter
  rw [← Option.mem_some_iff.1 hc, fold_of_isDigit hd] at hletter
  have hdigit := hletter.not_isDecimalDigit
  rw [isDecimalDigit_of_isDigit hd] at hdigit
  nomatch hdigit

theorem follows_labelChars (label : Option String) : Follows (labelChars label) := by
  refine ⟨behind_labelChars label, fun c hc => ?_⟩
  cases label with
  | none => nomatch hc
  | some l =>
    rw [← Option.mem_some_iff.1 hc]
    decide

end Spelling

/-! ### Suffixes -/

/-- A separator that may stand before or behind the label of a suffix. -/
inductive Separator
  | hyphen
  | underscore
  | point
  deriving DecidableEq, Repr

/-- The character of a separator. -/
def Separator.char : Separator → Char
  | .hyphen => '-'
  | .underscore => '_'
  | .point => '.'

/-- A separator that may be missing. -/
def Separator.chars (sep? : Option Separator) : List Char :=
  sep?.elim [] fun sep => [sep.char]

/-- A suffix as it is written, with one of its synonymous labels in any letter case. -/
structure Mark (synonyms : List (List Char)) where
  before : Option Separator
  label : List Char
  after : Option Separator
  number : Option Numeral
  isLabel : lower label ∈ synonyms

namespace Mark

open Spelling

variable {synonyms labels : List (List Char)}

/-- What stands behind the label of a suffix. -/
def tail (m : Mark synonyms) : List Char :=
  Separator.chars m.after ++ Numeral.digits m.number

/-- The text of a suffix. -/
def chars (m : Mark synonyms) : List Char :=
  Separator.chars m.before ++ (m.label ++ m.tail)

/-- What is left of the text behind a suffix once this is read: the separator there is taken along if
neither a separator nor a number stands behind the label. -/
def leaves (m : Mark synonyms) (rest : List Char) : List Char :=
  if m.after = none ∧ m.number = none then skipSeparator rest else rest

theorem isLetter_label (m : Mark synonyms) (h : synonyms ⊆ suffixLabels) :
    ∀ c ∈ m.label, IsLetter c := fun _ hc =>
  isLetter_of_toLower (isLetter_of_mem _ (h m.isLabel) _ (List.mem_map_of_mem hc))

theorem map_fold_label (m : Mark synonyms) (h : synonyms ⊆ suffixLabels) :
    m.label.map fold = lower m.label :=
  List.map_congr_left fun c hc => (m.isLetter_label h c hc).fold

/-- The label of a suffix starts with a letter. -/
theorem exists_label_cons (m : Mark synonyms) (h : synonyms ⊆ suffixLabels) :
    ∃ c cs, m.label = c :: cs ∧ IsLetter c := by
  cases hlabel : m.label with
  | nil =>
    have hmem := h m.isLabel
    rw [hlabel] at hmem
    exact absurd hmem (by decide)
  | cons c cs =>
    refine ⟨c, cs, rfl, m.isLetter_label h c ?_⟩
    rw [hlabel]
    exact List.mem_cons_self

theorem skipSeparator_label (m : Mark synonyms) (h : synonyms ⊆ suffixLabels) (rest : List Char) :
    skipSeparator (m.label ++ rest) = m.label ++ rest := by
  obtain ⟨c, cs, hlabel, hc⟩ := m.exists_label_cons h
  rw [hlabel, List.cons_append, skipSeparator, hc.not_isSeparator, if_neg Bool.false_ne_true]

theorem skipSeparator_chars (m : Mark synonyms) (h : synonyms ⊆ suffixLabels) (rest : List Char) :
    skipSeparator (m.chars ++ rest) = m.label ++ (m.tail ++ rest) := by
  rw [chars, List.append_assoc, List.append_assoc]
  cases m.before with
  | none => exact m.skipSeparator_label h _
  | some sep => cases sep <;> rfl

/-! ### What stands behind a label -/

theorem notMem_furtherLetters_tail (m : Mark synonyms) {rest : List Char} (h : Follows rest) :
    ∀ c ∈ (m.tail ++ rest).head?, fold c ∉ furtherLetters := by
  intro c hc
  rw [tail] at hc
  cases hafter : m.after with
  | some sep =>
    rw [hafter] at hc
    rw [← Option.mem_some_iff.1 hc]
    cases sep <;> decide
  | none =>
    cases hnumber : m.number with
    | none =>
      rw [hafter, hnumber] at hc
      exact h.letter c hc
    | some n =>
      obtain ⟨d, ds, hchars, hd⟩ := n.exists_chars_cons
      have hdigits : Numeral.digits (some n) = d :: ds := hchars
      rw [hafter, hnumber, hdigits] at hc
      rw [← Option.mem_some_iff.1 hc, fold_of_isDigit hd]
      intro hmem
      have hletter : ∀ l ∈ furtherLetters, l.isDigit = false := by decide
      rw [hletter d hmem] at hd
      nomatch hd

/-- The label that matches is a beginning of the one that was written. -/
theorem stripOneOf?_label (m : Mark synonyms) (h : synonyms ⊆ suffixLabels)
    (hlabels : labels ⊆ suffixLabels) {rest : List Char} (hrest : Follows rest) :
    stripOneOf? labels (m.label ++ (m.tail ++ rest)) =
      (labels.find? (·.isPrefixOf (lower m.label))).map fun label =>
        (label, (m.label ++ (m.tail ++ rest)).drop label.length) := by
  rw [stripOneOf?_eq, List.map_append, m.map_fold_label h, find?_isPrefixOf_append]
  intro label hlabel c hc hprefix
  rw [List.head?_map] at hc
  obtain ⟨d, hd, rfl⟩ := Option.map_eq_some_iff.1 hc
  refine m.notMem_furtherLetters_tail hrest d hd ?_
  obtain ⟨t, rfl⟩ := hprefix
  refine mem_furtherLetters _ (h m.isLabel) _ (hlabels hlabel) ?_ _ ?_
  · rw [List.isPrefixOf_iff_prefix, List.append_assoc]
    exact List.prefix_append _ _
  · simp

theorem digits_tail (m : Mark synonyms) {rest : List Char} (h : Follows rest)
    (hopen : m.after = none → m.number = none → Opens rest) :
    digits (skipSeparator (m.tail ++ rest)) = (Numeral.digits m.number, m.leaves rest) := by
  have hdigits : digits (Numeral.digits m.number ++ rest) = (Numeral.digits m.number, rest) := by
    cases m.number with
    | none => exact digits_append nofun h.digit
    | some n => exact digits_append n.isNumber_chars.isDigit h.digit
  rw [tail, leaves]
  cases hafter : m.after with
  | some sep =>
    rw [if_neg (by simp), ← hdigits]
    cases sep <;> rfl
  | none =>
    cases hnumber : m.number with
    | none =>
      rw [if_pos ⟨rfl, rfl⟩]
      exact digits_append (List.forall_mem_nil _) (hopen hafter hnumber).digit
    | some n =>
      rw [hnumber] at hdigits
      rw [if_neg (by simp), ← hdigits]
      exact congrArg digits (skipSeparator_number n.isNumber_chars rest)

/-! ### Suffixes are read -/

/-- A suffix is read by its own labels. -/
theorem suffix?_chars (m : Mark synonyms) (labels : List (List Char))
    (hlabels : labels ∈ [preLabels, postLabels, devLabels]) (hsub : synonyms ⊆ labels)
    {rest : List Char} (h : Follows rest) (hopen : m.after = none → m.number = none → Opens rest) :
    suffix? labels (m.chars ++ rest) =
      some (lower m.label, Numeral.digits m.number, m.leaves rest) := by
  have hall := subset_suffixLabels hlabels
  have hsyn : synonyms ⊆ suffixLabels := List.Subset.trans hsub hall
  have hlength : (lower m.label).length = m.label.length := List.length_map _
  rw [suffix?, m.skipSeparator_chars hsyn, m.stripOneOf?_label hsyn hall h,
    find?_labels labels hlabels _ (hsub m.isLabel), Option.map_some, Option.map_some, hlength,
    List.drop_left]
  dsimp only
  rw [m.digits_tail h hopen]

/-- A suffix is not read by the labels of another, if none of them is a beginning of its own. -/
theorem suffix?_eq_none (m : Mark synonyms) (h : synonyms ⊆ suffixLabels)
    (hlabels : labels ∈ [preLabels, postLabels, devLabels])
    (hnone : ∀ label ∈ synonyms, labels.find? (·.isPrefixOf label) = none) {rest : List Char}
    (hrest : Follows rest) : suffix? labels (m.chars ++ rest) = none := by
  rw [suffix?, m.skipSeparator_chars h, m.stripOneOf?_label h (subset_suffixLabels hlabels) hrest,
    hnone _ m.isLabel]
  rfl

/-- A suffix may stand behind the number of another part. -/
theorem behind (m : Mark synonyms) (h : synonyms ⊆ suffixLabels) (rest : List Char) :
    Behind (m.chars ++ rest) := by
  obtain ⟨c, cs, hlabel, hc⟩ := m.exists_label_cons h
  have hne : ∀ d : Char, ¬IsLetter d → c ≠ d := by
    rintro d hd rfl
    exact hd hc
  rw [chars, List.append_assoc, hlabel]
  cases m.before with
  | none => exact behind_cons hc.not_isDecimalDigit (hne _ (by decide)) (hne _ (by decide)) _
  | some sep =>
    cases sep with
    | point => exact behind_point hc.not_isDecimalDigit _
    | hyphen => exact behind_cons rfl (by decide) (by decide) _
    | underscore => exact behind_cons rfl (by decide) (by decide) _

/-- A post-release or a development release may stand behind the label of another suffix. -/
theorem follows (m : Mark synonyms) (h : synonyms ⊆ postLabels ++ devLabels) (rest : List Char) :
    Follows (m.chars ++ rest) := by
  have hall : synonyms ⊆ suffixLabels := List.Subset.trans h (List.subset_append_right _ _)
  obtain ⟨c, cs, hlabel, hc⟩ := m.exists_label_cons hall
  refine ⟨m.behind hall rest, fun d hd => ?_⟩
  rw [chars, List.append_assoc, hlabel] at hd
  cases hbefore : m.before with
  | none =>
    rw [hbefore] at hd
    rw [← Option.mem_some_iff.1 hd, hc.fold]
    refine notMem_furtherLetters _ (h m.isLabel) _ ?_
    rw [hlabel]
    rfl
  | some sep =>
    rw [hbefore] at hd
    rw [← Option.mem_some_iff.1 hd]
    cases sep <;> decide

end Mark

/-! ### What a suffix leaves -/

namespace Spelling

/-- What a suffix leaves of the text behind it: all of it, or all but a separator. -/
def Left (rest cs : List Char) : Prop :=
  cs = rest ∨ cs = skipSeparator rest

theorem Left.skipSeparator_eq {rest cs : List Char} (h : Left rest cs) (hopens : Opens rest) :
    skipSeparator cs = skipSeparator rest := by
  rcases h with rfl | rfl
  · rfl
  · exact hopens.skip

/-- What is read as a suffix does not depend on the separator before it. -/
theorem Left.suffix?_eq {rest cs : List Char} (h : Left rest cs) (hopens : Opens rest)
    (labels : List (List Char)) : suffix? labels cs = suffix? labels rest := by
  rw [suffix?, suffix?, h.skipSeparator_eq hopens]

theorem left_leaves {synonyms : List (List Char)} (m : Mark synonyms) (rest : List Char) :
    Left rest (m.leaves rest) := by
  unfold Mark.leaves
  split
  · exact Or.inr rfl
  · exact Or.inl rfl

theorem skipSeparator_labelChars (label : Option String) :
    skipSeparator (labelChars label) = labelChars label := by
  cases label <;> rfl

theorem Left.eq_labelChars {label : Option String} {cs : List Char} (h : Left (labelChars label) cs) :
    cs = labelChars label := by
  rw [Left, skipSeparator_labelChars, or_self] at h
  exact h

theorem opens_labelChars (label : Option String) : Opens (labelChars label) := by
  constructor
  · rw [skipSeparator_labelChars, skipSeparator_labelChars]
  · rw [skipSeparator_labelChars]
    exact (behind_labelChars label).digit

theorem opens_chars {synonyms : List (List Char)} (m : Mark synonyms)
    (h : synonyms ⊆ suffixLabels) (rest : List Char) : Opens (m.chars ++ rest) := by
  obtain ⟨c, cs, hlabel, hc⟩ := m.exists_label_cons h
  constructor
  · rw [m.skipSeparator_chars h, m.skipSeparator_label h]
  · rw [m.skipSeparator_chars h, hlabel]
    intro d hd
    rw [← Option.mem_some_iff.1 hd]
    exact hc.not_isDecimalDigit

/-- Where no number follows a hyphen, a post-release has a label. -/
theorem post?_eq_labelled {rest cs : List Char} (h : Left rest cs) (hopens : Opens rest) :
    post? cs = post?.labelled cs := by
  unfold post?
  split
  next d rest' =>
    have hdigit := hopens.digit d
    rw [← h.skipSeparator_eq hopens] at hdigit
    exact if_neg (Bool.eq_false_iff.1 (hdigit rfl))
  next => rfl

theorem post?_of_some {rest cs label number tail : List Char} (h : Left rest cs)
    (hopens : Opens rest) (hsuffix : suffix? postLabels rest = some (label, number, tail)) :
    post? cs = (some number, tail) := by
  rw [post?_eq_labelled h hopens, post?.labelled, h.suffix?_eq hopens, hsuffix]

theorem post?_of_none {rest cs : List Char} (h : Left rest cs) (hopens : Opens rest)
    (hsuffix : suffix? postLabels rest = none) : post? cs = (none, cs) := by
  rw [post?_eq_labelled h hopens, post?.labelled, h.suffix?_eq hopens, hsuffix]

end Spelling

end Requisite
