import Mathlib.Data.List.TakeDrop
import Requisite.Proofs.Text.Classes
import Requisite.Proofs.Text.Pieces
import Requisite.Version.Spelling

/-!
# The characters of a version

A text that is spelled like a version has digits, letters, separators and two signs only.  Every part
of the spelling takes such characters from the start of the text, and nothing is left at the end.

* `Spelling.isVersionChar` — the characters that versions are spelled with;
* `Spelling.Takes` — a text with such characters before the rest;
* **`Spelling.isVersionChar_of_read?`** — a text that is spelled like a version has no others.
-/

namespace Requisite

namespace Text

theorem disjoint_zeroDigits_blankRanges :
    ∀ first ∈ zeroDigits, ∀ b ∈ blankRanges, first + 9 < b.1 ∨ b.2 < first := by
  decide +kernel

theorem isBlank_of_isDecimalDigit {c : Char} (h : isDecimalDigit c = true) : isBlank c = false := by
  rw [isDecimalDigit, Bool.or_eq_true, List.any_eq_true] at h
  rcases h with h | ⟨first, hfirst, hc⟩
  · exact isBlank_of_isAlphanum (by rw [Char.isAlphanum, h, Bool.or_true])
  · rw [isBlank, List.any_eq_false]
    intro b hb hblank
    have hdisjoint := disjoint_zeroDigits_blankRanges first hfirst b hb
    simp only [Bool.and_eq_true, decide_eq_true_eq] at hc hblank
    omega

end Text

namespace Spelling

open Text

/-- A character that versions are spelled with. -/
def isVersionChar (c : Char) : Bool :=
  isDecimalDigit c || isLabelChar c || isSeparator c || c == '!' || c == '+'

theorem isVersionChar_of_isDecimalDigit {c : Char} (h : isDecimalDigit c = true) :
    isVersionChar c = true := by
  simp [isVersionChar, h]

theorem isVersionChar_of_isLabelChar {c : Char} (h : isLabelChar c = true) :
    isVersionChar c = true := by
  simp [isVersionChar, h]

theorem isVersionChar_of_isSeparator {c : Char} (h : isSeparator c = true) :
    isVersionChar c = true := by
  simp [isVersionChar, h]

theorem isBlank_of_isVersionChar {c : Char} (h : isVersionChar c = true) : isBlank c = false := by
  simp only [isVersionChar, Bool.or_eq_true, beq_iff_eq] at h
  rcases h with (((h | h) | h) | rfl) | rfl
  · exact isBlank_of_isDecimalDigit h
  · rw [isLabelChar, fold] at h
    split at h
    next hc => rw [hc]; rfl
    next =>
      split at h
      next hc => rw [hc]; rfl
      next => rw [← isBlank_toLower, isBlank_of_isAlphanum h]
  · exact Name.isBlank_of_isSeparator h
  · rfl
  · rfl

/-! ### Taking characters from the start -/

/-- A text with characters of versions before the rest. -/
def Takes (cs rest : List Char) : Prop :=
  ∃ taken, cs = taken ++ rest ∧ ∀ c ∈ taken, isVersionChar c = true

theorem Takes.refl (cs : List Char) : Takes cs cs :=
  ⟨[], rfl, nofun⟩

theorem Takes.trans {cs ds es : List Char} (h : Takes cs ds) (h' : Takes ds es) : Takes cs es := by
  obtain ⟨a, rfl, ha⟩ := h
  obtain ⟨b, rfl, hb⟩ := h'
  refine ⟨a ++ b, (List.append_assoc a b es).symm, fun c hc => ?_⟩
  rcases List.mem_append.1 hc with hc | hc
  · exact ha c hc
  · exact hb c hc

theorem Takes.cons {c : Char} {cs rest : List Char} (hc : isVersionChar c = true)
    (h : Takes cs rest) : Takes (c :: cs) rest := by
  obtain ⟨a, rfl, ha⟩ := h
  exact ⟨c :: a, rfl, List.forall_mem_cons.2 ⟨hc, ha⟩⟩

theorem takes_skipSeparator (cs : List Char) : Takes cs (skipSeparator cs) := by
  cases cs with
  | nil => exact .refl _
  | cons c cs =>
    rw [skipSeparator]
    split
    next h => exact (Takes.refl cs).cons (isVersionChar_of_isSeparator h)
    next => exact .refl _

theorem takes_skipLetter (cs : List Char) : Takes cs (skipLetter cs) := by
  cases cs with
  | nil => exact .refl _
  | cons c cs =>
    rw [skipLetter]
    split
    next h =>
      refine (Takes.refl cs).cons ?_
      rw [Bool.or_eq_true, decide_eq_true_eq, decide_eq_true_eq] at h
      rcases h with rfl | rfl <;> decide
    next => exact .refl _

theorem takes_digits (cs : List Char) : Takes cs (digits cs).2 := by
  rw [digits, List.span_eq_takeWhile_dropWhile]
  refine ⟨cs.takeWhile isDecimalDigit, List.takeWhile_append_dropWhile.symm, fun c hc => ?_⟩
  exact isVersionChar_of_isDecimalDigit (List.all_eq_true.1 List.all_takeWhile c hc)

theorem takes_epoch? (cs : List Char) : Takes cs (epoch? cs).2 := by
  have h := takes_digits cs
  rw [epoch?]
  split
  next d ds rest hdigits =>
    rw [hdigits] at h
    exact h.trans ((Takes.refl rest).cons rfl)
  next => exact .refl _

theorem takes_moreRelease (ds cs : List Char) : Takes cs (moreRelease ds cs).2 := by
  fun_induction moreRelease ds cs with
  | case1 => exact .refl _
  | case2 ds c h => exact (Takes.refl []).cons (isVersionChar_of_isDecimalDigit h)
  | case3 => exact .refl _
  | case4 ds c d cs h ih => exact ih.cons (isVersionChar_of_isDecimalDigit h)
  | case5 ds c d cs _ h numbers rest hmore ih =>
    rw [Bool.and_eq_true, decide_eq_true_eq] at h
    rw [hmore] at ih
    refine ih.cons ?_
    rw [h.1]
    rfl
  | case6 => exact .refl _

theorem takes_release? {cs rest : List Char} {numbers : List (List Char)}
    (h : release? cs = some (numbers, rest)) : Takes cs rest := by
  cases cs with
  | nil => cases h
  | cons c cs =>
    rw [release?] at h
    split at h
    next =>
      have htakes := takes_moreRelease [] (c :: cs)
      rwa [Option.some.inj h] at htakes
    next => cases h

theorem takes_stripLabel? {label cs rest : List Char}
    (hlabel : ∀ l ∈ label, l.isAlphanum = true) (h : stripLabel? label cs = some rest) :
    Takes cs rest := by
  induction label generalizing cs with
  | nil => rw [stripLabel?] at h; rw [Option.some.inj h]; exact .refl _
  | cons l label ih =>
    obtain ⟨hl, hlabel⟩ := List.forall_mem_cons.1 hlabel
    cases cs with
    | nil => cases h
    | cons c cs =>
      rw [stripLabel?] at h
      split at h
      next hc =>
        refine (ih hlabel h).cons (isVersionChar_of_isLabelChar ?_)
        rw [isLabelChar, hc, hl]
      next => cases h

theorem takes_suffix? {labels : List (List Char)} {cs label number rest : List Char}
    (hlabels : ∀ label ∈ labels, ∀ l ∈ label, l.isAlphanum = true)
    (h : suffix? labels cs = some (label, number, rest)) : Takes cs rest := by
  rw [suffix?, Option.map_eq_some_iff] at h
  obtain ⟨⟨label', rest'⟩, hstrip, heq⟩ := h
  cases heq
  rw [stripOneOf?, List.findSome?_eq_some_iff] at hstrip
  obtain ⟨before, label'', after, hmem, hstrip, -⟩ := hstrip
  rw [Option.map_eq_some_iff] at hstrip
  obtain ⟨rest'', hstrip, heq⟩ := hstrip
  cases heq
  have hlabel := hlabels _ (by rw [hmem]; exact List.mem_append_right _ (List.mem_cons_self ..))
  exact (takes_skipSeparator cs).trans ((takes_stripLabel? hlabel hstrip).trans
    ((takes_skipSeparator _).trans (takes_digits _)))

theorem takes_pre? (cs : List Char) : Takes cs (pre? cs).2 := by
  rw [pre?]
  split
  next h => exact takes_suffix? (by decide) h
  next => exact .refl _

theorem takes_labelled (cs : List Char) : Takes cs (post?.labelled cs).2 := by
  unfold post?.labelled
  split
  next h => exact takes_suffix? (by decide) h
  next => exact .refl _

theorem takes_post? (cs : List Char) : Takes cs (post? cs).2 := by
  unfold post?
  split
  next d rest =>
    split
    next => exact (takes_digits _).cons rfl
    next => exact takes_labelled _
  next => exact takes_labelled cs

theorem takes_dev? (cs : List Char) : Takes cs (dev? cs).2 := by
  rw [dev?]
  split
  next h => exact takes_suffix? (by decide) h
  next => exact .refl _

/-- A local label consists of letters, digits and separators. -/
theorem takes_of_isLabel {cs : List Char} (h : isLabel cs = true) : Takes cs [] := by
  refine ⟨cs, (List.append_nil cs).symm, fun c hc => ?_⟩
  rw [isLabel, List.all_eq_true] at h
  rcases mem_or_mem_splitOnP hc with hsep | ⟨piece, hpiece, hc⟩
  · exact isVersionChar_of_isSeparator hsep
  · have hall := h piece hpiece
    rw [Bool.and_eq_true, List.all_eq_true] at hall
    exact isVersionChar_of_isLabelChar (hall.2 c hc)

theorem takes_label? {cs : List Char} {label : Option (List Char)} (h : label? cs = some label) :
    Takes cs [] := by
  cases cs with
  | nil => exact .refl _
  | cons c cs =>
    rw [label?] at h
    split at h
    next hlabel =>
      rw [Bool.and_eq_true, decide_eq_true_eq] at hlabel
      exact (takes_of_isLabel hlabel.2).cons (by rw [hlabel.1]; rfl)
    next => cases h

/-- A text that is spelled like a version has characters of versions only. -/
theorem isVersionChar_of_read? {cs : List Char} {s : Spelling} (h : read? cs = some s) :
    ∀ c ∈ cs, isVersionChar c = true := by
  unfold read? at h
  simp only [Option.bind_eq_bind, Option.bind_eq_some_iff] at h
  obtain ⟨⟨numbers, rest⟩, hrelease, label, hlabel, -⟩ := h
  have hstart : Takes cs rest :=
    ((takes_skipLetter cs).trans (takes_epoch? _)).trans (takes_release? hrelease)
  have hsuffixes := ((takes_pre? rest).trans (takes_post? _)).trans (takes_dev? _)
  obtain ⟨taken, rfl, htaken⟩ := (hstart.trans hsuffixes).trans (takes_label? hlabel)
  rwa [List.append_nil]

/-- A version does not start with a hyphen. -/
theorem read?_hyphen (cs : List Char) : read? ('-' :: cs) = none := rfl

end Spelling

end Requisite
