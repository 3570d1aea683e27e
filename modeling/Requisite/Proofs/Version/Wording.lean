import Requisite.Proofs.Version.Plain
import Requisite.Proofs.Version.Suffix

/-!
# The wordings of a version

The parts of a version may be written in many ways: with a `v` or without one, with zeros before a
number, with any label of a suffix in any letter case, with separators around it or without them, with
a number or without one if it is zero, and with blanks at both ends.  All of these are read as the parts
that were meant.  One wording has to be left out: a hyphen and a number directly behind the label of a
pre-release are read as the number of that, and not as a post-release.

* `Wording` — a version as it is written, and the version that is meant;
* `Wording.Clear` — the wordings whose post-release is not taken for the number of a pre-release;
* **`Wording.read?_chars`** — the parts are read where they were written;
* **`Wording.version_spelling`** — the numbers of the parts are read as their values;
* **`Wording.read_of_not_clear`** — the wordings that are left out are read like others with the same
  text;
* **`Wording.parse_wording`** — every wording is read as the version that is meant, or refused for its
  first number that does not fit a 64-bit word.
-/

namespace Requisite

open Text Spelling

/-! ### Versions as they are written -/

/-- The labels of a phase. -/
def Phase.synonyms : Phase → List (List Char)
  | .alpha => ["alpha".toList, "a".toList]
  | .beta => ["beta".toList, "b".toList]
  | .candidate => ["rc".toList, "c".toList, "preview".toList, "pre".toList]

/-- A post-release as it is written: a number behind a hyphen, or a suffix with a label. -/
inductive PostMark
  | dashed (n : Numeral)
  | labelled (m : Mark ["post".toList, "rev".toList, "r".toList])

/-- The text of a post-release. -/
def PostMark.chars : PostMark → List Char
  | .dashed n => '-' :: n.chars
  | .labelled m => m.chars

/-- The number of a post-release, if one is written. -/
def PostMark.number : PostMark → Option Numeral
  | .dashed n => some n
  | .labelled m => m.number

/-- A local label as it is written: words of letters and digits with separators between them. -/
structure LocalLabel where
  first : List Char
  more : List (Separator × List Char)
  isWord : ∀ word ∈ first :: more.map Prod.snd, word ≠ [] ∧ ∀ c ∈ word, c.isAlphanum = true

/-- The characters of a local label. -/
def LocalLabel.chars (l : LocalLabel) : List Char :=
  l.first ++ l.more.flatMap fun (sep, word) => sep.char :: word

/-- The text of a local label. -/
def LocalLabel.text (l : LocalLabel) : String :=
  String.ofList l.chars

/-- A version as it is written. -/
structure Wording where
  lead : List Char
  letter : List Char
  epoch : Option Numeral
  release : List Numeral
  pre : Option ((phase : Phase) × Mark phase.synonyms)
  post : Option PostMark
  dev : Option (Mark ["dev".toList])
  label : Option LocalLabel
  trail : List Char
  isBlank_lead : ∀ c ∈ lead, isBlank c = true
  isLetter : letter ∈ [[], ['v'], ['V']]
  release_ne_nil : release ≠ []
  isBlank_trail : ∀ c ∈ trail, isBlank c = true

namespace Wording

/-- A development release and a label. -/
def devTail (w : Wording) : List Char :=
  w.dev.elim [] Mark.chars ++ labelChars (w.label.map LocalLabel.text)

/-- A post-release and what stands behind it. -/
def postTail (w : Wording) : List Char :=
  w.post.elim [] PostMark.chars ++ w.devTail

/-- A pre-release and what stands behind it. -/
def preTail (w : Wording) : List Char :=
  w.pre.elim [] (fun p => p.2.chars) ++ w.postTail

/-- The characters of a version, without the blanks around it. -/
def chars (w : Wording) : List Char :=
  w.letter ++ (epochChars (w.epoch.map Numeral.chars) ++
    ['.'].intercalate (w.release.map Numeral.chars)) ++ w.preTail

/-- The text of a version. -/
def text (w : Wording) : String :=
  String.ofList (w.lead ++ (w.chars ++ w.trail))

/-- The version that is meant. -/
def version (w : Wording) : Version where
  epoch := Numeral.valueOf w.epoch
  release := w.release.map Numeral.value
  pre := w.pre.map fun p => (p.1, Numeral.valueOf p.2.number)
  post := w.post.map fun p => Numeral.valueOf p.number
  dev := w.dev.map fun m => Numeral.valueOf m.number
  label := w.label.map fun l => String.ofList (lower l.chars)

/-- The numbers of a version, in the order in which they are written. -/
def numerals (w : Wording) : List Numeral :=
  w.epoch.toList ++ (w.release ++ ((w.pre.bind fun p => p.2.number).toList ++
    ((w.post.bind PostMark.number).toList ++ (w.dev.bind Mark.number).toList)))

/-- No hyphen and number stand directly behind the label of a pre-release. -/
def Clear (w : Wording) : Prop :=
  ∀ p ∈ w.pre, p.2.after = none → p.2.number = none → ∀ n, w.post ≠ some (.dashed n)

/-- The written pieces of a version. -/
def spelling (w : Wording) : Spelling where
  epoch := w.epoch.map Numeral.chars
  release := w.release.map Numeral.chars
  pre := w.pre.map fun p => (p.1, Numeral.digits p.2.number)
  post := w.post.map fun p => Numeral.digits p.number
  dev := w.dev.map fun m => Numeral.digits m.number
  label := (w.label.map LocalLabel.text).map String.toList

end Wording

/-! ### Local labels -/

namespace LocalLabel

theorem isLabelChar_of_isAlphanum {c : Char} (h : c.isAlphanum = true) : isLabelChar c = true := by
  have hplace := toNat_of_isAlphanum h
  rw [isLabelChar, fold_of_toNat_lt (by omega)]
  rcases toLower_cases c with hc | ⟨hupper, hc⟩
  · rwa [hc]
  · exact isAlphanum_of_toNat (by omega) (by omega)

/-- The words of a label are its pieces. -/
theorem splitOnP_words {first : List Char} {more : List (Separator × List Char)}
    (h : ∀ word ∈ first :: more.map Prod.snd, ∀ c ∈ word, isSeparator c = false) :
    (first ++ more.flatMap fun (sep, word) => sep.char :: word).splitOnP isSeparator =
      first :: more.map Prod.snd := by
  induction more generalizing first with
  | nil =>
    rw [List.flatMap_nil, List.append_nil]
    exact List.splitOnP_eq_singleton (h first List.mem_cons_self)
  | cons next more ih =>
    obtain ⟨sep, word⟩ := next
    obtain ⟨hfirst, h⟩ := List.forall_mem_cons.1 h
    have hsep : isSeparator sep.char = true := by cases sep <;> rfl
    rw [List.flatMap_cons, List.cons_append,
      List.splitOnP_append_cons_of_forall_mem hfirst sep.char hsep, ih h]
    rfl

/-- A local label is recognized as one. -/
theorem isLabel_text (l : LocalLabel) : isLabel l.text.toList = true := by
  have hwords : ∀ word ∈ l.first :: l.more.map Prod.snd, ∀ c ∈ word, isSeparator c = false :=
    fun word hword c hc =>
      isSeparator_of_isLabelChar (isLabelChar_of_isAlphanum ((l.isWord word hword).2 c hc))
  rw [text, String.toList_ofList, isLabel, chars, splitOnP_words hwords, List.all_eq_true]
  intro word hword
  obtain ⟨hne, hall⟩ := l.isWord word hword
  rw [Bool.and_eq_true, List.all_eq_true, List.isEmpty_eq_false_iff.2 hne]
  exact ⟨rfl, fun c hc => isLabelChar_of_isAlphanum (hall c hc)⟩

end LocalLabel

namespace Wording

variable (w : Wording)

theorem synonyms_subset (phase : Phase) : phase.synonyms ⊆ preLabels := by
  cases phase <;> decide

theorem phaseOf_synonym (phase : Phase) : ∀ label ∈ phase.synonyms, phaseOf label = phase := by
  cases phase <;> decide

theorem opens_devTail : Opens w.devTail := by
  unfold devTail
  cases w.dev with
  | none => exact opens_labelChars _
  | some m => exact opens_chars m (by decide) _

theorem follows_devTail : Follows w.devTail := by
  unfold devTail
  cases w.dev with
  | none => exact follows_labelChars _
  | some m => exact m.follows (by decide) _

theorem opens_postTail (h : ∀ n, w.post ≠ some (.dashed n)) : Opens w.postTail := by
  unfold postTail
  cases hpost : w.post with
  | none => exact w.opens_devTail
  | some p =>
    cases p with
    | dashed n => exact absurd hpost (h n)
    | labelled m => exact opens_chars m (by decide) _

theorem follows_postTail : Follows w.postTail := by
  unfold postTail
  cases w.post with
  | none => exact w.follows_devTail
  | some p =>
    cases p with
    | dashed n =>
      refine ⟨behind_cons rfl (by decide) (by decide) _, fun c hc => ?_⟩
      rw [← Option.mem_some_iff.1 hc]
      decide
    | labelled m => exact m.follows (by decide) _

theorem behind_preTail : Behind w.preTail := by
  unfold preTail
  cases w.pre with
  | none => exact w.follows_postTail.toBehind
  | some p =>
    exact p.2.behind (List.Subset.trans (synonyms_subset p.1) (List.subset_append_left _ _)) _

/-! ### The parts are read -/

theorem suffix?_devTail {labels : List (List Char)}
    (hlabels : labels ∈ [preLabels, postLabels, devLabels])
    (hnone : ∀ label ∈ devLabels, labels.find? (·.isPrefixOf label) = none) :
    suffix? labels w.devTail = none := by
  unfold devTail
  cases w.dev with
  | none => exact suffix?_labelChars hlabels _
  | some m => exact m.suffix?_eq_none (by decide) hlabels hnone (follows_labelChars _)

/-- Where there is no pre-release, none is read from what stands behind the release. -/
theorem suffix?_postTail : suffix? preLabels w.postTail = none := by
  unfold postTail
  cases w.post with
  | none => exact w.suffix?_devTail (by decide) (by decide)
  | some p =>
    cases p with
    | dashed n => exact suffix?_dashed (by decide) n w.devTail
    | labelled m =>
      exact m.suffix?_eq_none (by decide) (by decide) (by decide) w.follows_devTail

theorem dev?_left {cs : List Char} (h : Left w.devTail cs) : dev? cs =
    (w.dev.map fun m => Numeral.digits m.number, labelChars (w.label.map LocalLabel.text)) := by
  have hopens := w.opens_devTail
  rw [dev?, h.suffix?_eq hopens]
  unfold devTail at h hopens ⊢
  cases hdev : w.dev with
  | none =>
    rw [hdev] at h
    rw [Option.elim_none, List.nil_append] at h ⊢
    rw [suffix?_labelChars (by decide), h.eq_labelChars]
    rfl
  | some m =>
    have hsuffix := m.suffix?_chars devLabels (by decide) (by decide)
      (follows_labelChars (w.label.map LocalLabel.text)) fun _ _ => opens_labelChars _
    rw [Option.elim_some, hsuffix, (left_leaves m _).eq_labelChars]
    rfl

/-- A number behind a hyphen is a post-release. -/
theorem post?_dashed (n : Numeral) {rest : List Char} (h : Behind rest) :
    post? ('-' :: (n.chars ++ rest)) = (some n.chars, rest) := by
  obtain ⟨d, ds, hchars, hd⟩ := n.exists_chars_cons
  have hdigits := digits_append n.isNumber_chars.isDigit h.digit
  rw [hchars, List.cons_append] at hdigits ⊢
  rw [post?, if_pos (isDecimalDigit_of_isDigit hd), hdigits]

theorem post?_left {cs : List Char} (h : Left w.postTail cs)
    (hdashed : ∀ n, w.post = some (.dashed n) → cs = w.postTail) : ∃ ds,
      post? cs = (w.post.map fun p => Numeral.digits p.number, ds) ∧ Left w.devTail ds := by
  have hopens := w.opens_postTail
  unfold postTail at h hdashed hopens
  cases hpost : w.post with
  | none =>
    rw [hpost] at h hopens
    exact ⟨cs, post?_of_none h (hopens nofun) (w.suffix?_devTail (by decide) (by decide)), h⟩
  | some p =>
    cases p with
    | dashed n =>
      refine ⟨w.devTail, ?_, Or.inl rfl⟩
      rw [hdashed n hpost, hpost]
      exact post?_dashed n w.follows_devTail.toBehind
    | labelled m =>
      rw [hpost] at h hopens
      have hsuffix := m.suffix?_chars postLabels (by decide) (by decide)
        w.follows_devTail fun _ _ => w.opens_devTail
      exact ⟨m.leaves w.devTail, post?_of_some h (hopens nofun) hsuffix, left_leaves m _⟩

theorem pre?_preTail (h : w.Clear) : ∃ cs,
    pre? w.preTail = (w.pre.map fun p => (p.1, Numeral.digits p.2.number), cs) ∧
      Left w.postTail cs ∧ ∀ n, w.post = some (.dashed n) → cs = w.postTail := by
  -- What is left may lack a separator, but not the hyphen of a number, which would be missed.
  rw [pre?]
  unfold preTail
  cases hpre : w.pre with
  | none =>
    refine ⟨w.postTail, ?_, Or.inl rfl, fun _ _ => rfl⟩
    rw [Option.elim_none, List.nil_append, w.suffix?_postTail]
    rfl
  | some p =>
    obtain ⟨phase, m⟩ := p
    have hclear : m.after = none → m.number = none → ∀ n, w.post ≠ some (.dashed n) :=
      h ⟨phase, m⟩ hpre
    have hsuffix := m.suffix?_chars preLabels (by decide) (synonyms_subset phase)
      w.follows_postTail fun hafter hnumber => w.opens_postTail (hclear hafter hnumber)
    refine ⟨m.leaves w.postTail, ?_, left_leaves m _, fun n hn => ?_⟩
    · rw [Option.elim_some, hsuffix]
      dsimp only
      rw [phaseOf_synonym phase _ m.isLabel]
      rfl
    · exact if_neg fun hopen => hclear hopen.1 hopen.2 n hn

/-- The letter, the epoch and the release of a version. -/
def plain : Plain where
  letter := w.letter
  epoch := w.epoch.map Numeral.chars
  numbers := w.release.map Numeral.chars
  isLetter := w.isLetter
  isEpoch := by
    intro e he
    obtain ⟨n, -, rfl⟩ := Option.map_eq_some_iff.1 he
    exact n.isNumber_chars
  ne_nil := List.map_eq_nil_iff.not.2 w.release_ne_nil
  isNumber := by
    intro ds hds
    obtain ⟨n, -, rfl⟩ := List.mem_map.1 hds
    exact n.isNumber_chars

/-- Every part of a version is read where it was written. -/
theorem read?_chars (h : w.Clear) : read? w.chars = some w.spelling := by
  obtain ⟨hepoch, hrelease⟩ := w.plain.parts w.behind_preTail
  obtain ⟨cs, hpre, hcs, hdashed⟩ := w.pre?_preTail h
  obtain ⟨ds, hpost, hds⟩ := w.post?_left hcs hdashed
  have hlabel : label? (labelChars (w.label.map LocalLabel.text)) = some w.spelling.label := by
    refine label?_chars fun l hl => ?_
    obtain ⟨l, -, rfl⟩ := Option.map_eq_some_iff.1 hl
    exact l.isLabel_text
  have hchars : w.chars = w.plain.chars ++ w.preTail := rfl
  rw [hchars]
  unfold read?
  rw [hepoch]
  dsimp only
  rw [hrelease]
  simp only [Option.bind_eq_bind, Option.bind_some]
  rw [hpre]
  dsimp only
  rw [hpost]
  dsimp only
  rw [w.dev?_left hds]
  dsimp only
  rw [hlabel]
  rfl

/-! ### The numbers are read -/

/-- The numbers of the parts are read as their values, or the first one that does not fit a word is
the fault. -/
theorem version_spelling : w.spelling.version = Numeral.checked w.numerals w.version := by
  have hlabel : (w.spelling.label.map fun l => String.ofList (lower l)) = w.version.label := by
    show (((w.label.map LocalLabel.text).map String.toList).map fun l => String.ofList (lower l)) = _
    cases hlabel : w.label <;> simp [version, hlabel, LocalLabel.text]
  have hepoch := Numeral.epochNumber_chars w.epoch
  have hrelease := Numeral.mapM_number w.release
  have hpre := Numeral.preNumber_digits w.pre Sigma.fst fun p => p.2.number
  have hpost := Numeral.optionalNumber_digits w.post PostMark.number
  have hdev := Numeral.optionalNumber_digits w.dev Mark.number
  rw [version_eq, hlabel, ← List.append_nil w.numerals]
  simp only [numerals, List.append_assoc]
  rw [spelling]
  dsimp only
  rw [hepoch]
  apply Numeral.bind_checked
  rw [hrelease]
  apply Numeral.bind_checked
  rw [hpre]
  apply Numeral.bind_checked
  rw [hpost]
  apply Numeral.bind_checked
  rw [hdev]
  apply Numeral.bind_checked
  rfl

theorem read_chars (h : w.Clear) : Version.read (w.lead ++ (w.chars ++ w.trail)) =
    Numeral.checked w.numerals w.version := by
  have hread := w.read?_chars h
  have hblankless : Blankless w.chars :=
    fun c hc => isBlank_of_isVersionChar (isVersionChar_of_read? hread c hc)
  have htrim : trim (w.lead ++ (w.chars ++ w.trail)) = w.chars := by
    rw [trim_blanks_append w.isBlank_lead, trim_append_blanks w.isBlank_trail,
      trim_of_blankless hblankless]
  rw [Version.read, htrim, hread]
  exact w.version_spelling

/-! ### The wordings that are not clear -/

/-- The wording whose post-release is taken for the number of the pre-release. -/
def joined (phase : Phase) (m : Mark phase.synonyms) (n : Numeral) : Wording :=
  { w with pre := some ⟨phase, { m with after := some .hyphen, number := some n }⟩, post := none }

/-- A wording that is not clear has the text of one that is, and is read like that. -/
theorem read_of_not_clear (h : ¬w.Clear) : ∃ phase m n, w.pre = some ⟨phase, m⟩ ∧
    w.post = some (.dashed n) ∧ (w.joined phase m n).text = w.text ∧
      Version.read w.text.toList =
        Numeral.checked (w.joined phase m n).numerals (w.joined phase m n).version := by
  simp only [Clear, not_forall, not_not] at h
  obtain ⟨⟨phase, m⟩, hpre, hafter, hnumber, n, hpost⟩ := h
  have htail : m.tail = [] := by
    rw [Mark.tail, hafter, hnumber]
    rfl
  have hjoined : ({ m with after := some .hyphen, number := some n } : Mark _).tail =
      '-' :: n.chars := rfl
  have hpreTail : (w.joined phase m n).preTail = w.preTail := by
    rw [preTail, preTail, postTail, postTail, Option.mem_def.1 hpre, hpost]
    simp [joined, devTail, Mark.chars, hjoined, htail, PostMark.chars]
  have htext : (w.joined phase m n).text = w.text := by
    rw [text, text, chars, chars, hpreTail]
    rfl
  have hclear : (w.joined phase m n).Clear := by
    intro p hp hafter
    rw [← Option.mem_some_iff.1 hp] at hafter
    cases hafter
  refine ⟨phase, m, n, hpre, hpost, htext, ?_⟩
  rw [← htext, text, String.toList_ofList, (w.joined phase m n).read_chars hclear]

example : Version.parse "1.0a-1" =
    .ok { Version.ofRelease 0 [1, 0] with pre := some (.alpha, 1) } := by
  decide

/-! ### All wordings -/

/-- Every wording of a version is read as the version that is meant, blanks around it ignored, if all
its numbers fit a 64-bit word; the first one that does not is the reason why it is refused. -/
theorem parse_wording (h : w.Clear) : Version.parse w.text =
    match w.numerals.find? fun n => decide (maxWord < n.value) with
    | none => .ok w.version
    | some n => .error ⟨w.text, .outOfRange (String.ofList n.chars)⟩ := by
  rw [Version.parse, text, String.toList_ofList, w.read_chars h, Numeral.checked]
  cases w.numerals.find? fun n => decide (maxWord < n.value) <;> rfl

/-- A version in a rare spelling of every part. -/
def candidate : Wording where
  lead := ['\t', ' ']
  letter := ['V']
  epoch := some ⟨1, 2⟩
  release := [⟨0, 1⟩, ⟨2, 0⟩]
  pre := some ⟨.candidate, some .hyphen, "Preview".toList, some .underscore, some ⟨1, 7⟩, by decide⟩
  post := some (.dashed ⟨0, 3⟩)
  dev := some ⟨some .point, "DEV".toList, none, none, by decide⟩
  label := some ⟨"Ab".toList, [(.underscore, "01".toList)], by decide⟩
  trail := ['\u3000']
  isBlank_lead := by decide
  isLetter := by decide
  release_ne_nil := by decide
  isBlank_trail := by decide

theorem parse_wording_candidate :
    let tooLarge : Wording := { candidate with post := some (.dashed ⟨1, maxWord + 1⟩) }
    Version.parse "\t V02!1.000-Preview_07-3.DEV+Ab_01\u3000" =
        .ok ⟨2, [1, 0], some (.candidate, 7), some 3, some 0, some "ab_01"⟩ ∧
      Version.parse tooLarge.text =
        .error ⟨tooLarge.text, .outOfRange "018446744073709551616"⟩ := by
  intro tooLarge
  have hclear : ∀ w : Wording, w.pre = candidate.pre → w.Clear := by
    rintro w hw p hp hafter
    rw [hw] at hp
    rw [← Option.mem_some_iff.1 hp] at hafter
    cases hafter
  have hread := parse_wording candidate (hclear candidate rfl)
  have hrefused := parse_wording tooLarge (hclear tooLarge rfl)
  have htext : candidate.text = "\t V02!1.000-Preview_07-3.DEV+Ab_01\u3000" := by decide
  have hnone : (candidate.numerals.find? fun n => decide (maxWord < n.value)) = none := by
    decide
  have hsome : (tooLarge.numerals.find? fun n => decide (maxWord < n.value)) =
      some ⟨1, maxWord + 1⟩ := by
    decide
  rw [hnone, htext] at hread
  rw [hsome] at hrefused
  refine ⟨hread.trans ?_, hrefused.trans ?_⟩
  · decide
  · decide

end Wording

end Requisite
