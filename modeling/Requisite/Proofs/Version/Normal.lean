import Requisite.Proofs.Version.Reading

/-!
# The normal spelling of versions

A version that was read has a release, numbers of 64 bits only, and a label without capitals.  Such
a version is written so that every part is read where it was written: none can be taken for an
earlier part that is missing, and none goes on in what is written behind it.

* `Spelling.Behind` — the texts that may stand behind a part of the normal spelling;
* `Version.Readable` — the versions that are read from some text;
* **`Version.read?_chars`** — the normal spelling is taken apart into the parts of the version;
* **`Version.read_chars_iff`** — the readable versions are those that are read from their own text;
* **`Version.toString_normalForm`** — the text of a version that was read is its normal form.
-/

namespace Requisite

open Text

/-! ### Labels -/

namespace Text

theorem lower_lower (cs : List Char) : lower (lower cs) = lower cs := by
  unfold lower
  rw [List.map_map]
  exact List.map_congr_left fun c _ => toLower_toLower c

theorem fold_toLower (c : Char) : fold c.toLower = fold c := by
  rcases toLower_cases c with h | ⟨hc, h⟩
  · rw [h]
  · have hne : ∀ d : Char, 128 ≤ d.toNat → c ≠ d ∧ c.toLower ≠ d := by
      intro d hd
      refine ⟨?_, ?_⟩
      · rintro rfl
        omega
      · intro heq
        rw [heq] at h
        omega
    obtain ⟨hs, hs'⟩ := hne '\u017f' (by decide)
    obtain ⟨hk, hk'⟩ := hne '\u212a' (by decide)
    rw [fold, fold, if_neg hs, if_neg hs', if_neg hk, if_neg hk', toLower_toLower]

/-- A digit stands for itself when case is ignored. -/
theorem fold_of_isDigit {c : Char} (h : c.isDigit = true) : fold c = c := by
  have hplace : 48 ≤ c.toNat ∧ c.toNat ≤ 57 := by
    simp only [Char.isDigit, Bool.and_eq_true, decide_eq_true_eq, UInt32.le_iff_toNat_le,
      ge_iff_le] at h
    exact h
  have hne : ∀ d : Char, 58 ≤ d.toNat → c ≠ d := by
    rintro d hd rfl
    omega
  rw [fold, if_neg (hne _ (by decide)), if_neg (hne _ (by decide))]
  rcases toLower_cases c with h | ⟨hc, -⟩
  · exact h
  · omega

/-- Pieces are lowered one by one if no separator is a letter. -/
theorem splitOnP_lower {p : Char → Bool} (hp : ∀ c : Char, p c.toLower = p c) (cs : List Char) :
    (lower cs).splitOnP p = (cs.splitOnP p).map lower := by
  unfold lower
  induction cs with
  | nil => rfl
  | cons c cs ih =>
    rw [List.map_cons, List.splitOnP_cons_eq_if_modifyHead, List.splitOnP_cons_eq_if_modifyHead, hp,
      ih]
    obtain ⟨piece, pieces, hpieces⟩ := List.exists_cons_of_ne_nil (List.splitOnP_ne_nil p cs)
    rw [hpieces]
    split <;> rfl

end Text

namespace Spelling

theorem isSeparator_of_isLabelChar {c : Char} (h : isLabelChar c = true) :
    isSeparator c = false := by
  rw [Bool.eq_false_iff]
  intro hsep
  simp only [isSeparator, Bool.or_eq_true, beq_iff_eq] at hsep
  rcases hsep with (rfl | rfl) | rfl <;> exact absurd h (by decide)

theorem isLabel_lower {cs : List Char} (h : isLabel cs = true) : isLabel (lower cs) = true := by
  have hchar : ∀ c : Char, isLabelChar c.toLower = isLabelChar c := by
    intro c
    rw [isLabelChar, isLabelChar, fold_toLower]
  have hsep : ∀ c : Char, isSeparator c.toLower = isSeparator c := Name.isSeparator_toLower
  rw [isLabel, List.all_eq_true] at h ⊢
  rw [splitOnP_lower hsep]
  intro piece hpiece
  obtain ⟨piece, hmem, rfl⟩ := List.mem_map.1 hpiece
  have hlabel := h piece hmem
  rw [Bool.and_eq_true, List.all_eq_true] at hlabel ⊢
  refine ⟨?_, fun c hc => ?_⟩
  · rw [lower, List.isEmpty_map]
    exact hlabel.1
  · obtain ⟨d, hd, rfl⟩ := List.mem_map.1 hc
    rw [hchar]
    exact hlabel.2 d hd

/-! ### What stands behind a number -/

/-- Neither a number goes on here, nor a release, and no epoch ends here. -/
structure Behind (rest : List Char) : Prop where
  digit : ∀ c ∈ rest.head?, isDecimalDigit c = false
  bang : ∀ c ∈ rest.head?, c ≠ '!'
  stops : Stops rest

theorem behind_nil : Behind [] :=
  ⟨nofun, nofun, trivial⟩

theorem behind_cons {c : Char} (hdigit : isDecimalDigit c = false) (hbang : c ≠ '!')
    (hpoint : c ≠ '.') (cs : List Char) : Behind (c :: cs) := by
  refine ⟨?_, ?_, ?_⟩
  · intro d hd
    rw [← Option.mem_some_iff.1 hd, hdigit]
  · intro d hd
    rw [← Option.mem_some_iff.1 hd]
    exact hbang
  · cases cs with
    | nil => exact hdigit
    | cons d cs => exact ⟨hdigit, fun h => absurd h hpoint⟩

theorem behind_point {d : Char} (hd : isDecimalDigit d = false) (cs : List Char) :
    Behind ('.' :: d :: cs) := by
  refine ⟨?_, ?_, rfl, fun _ => hd⟩
  · intro c hc
    rw [← Option.mem_some_iff.1 hc]
    rfl
  · intro c hc
    rw [← Option.mem_some_iff.1 hc]
    decide

theorem skipSeparator_number {ds : List Char} (h : IsNumber ds) (rest : List Char) :
    skipSeparator (ds ++ rest) = ds ++ rest := by
  obtain ⟨c, ds, rfl⟩ := List.exists_cons_of_ne_nil h.ne_nil
  have hdigit := h.isDigit c List.mem_cons_self
  rw [List.cons_append, skipSeparator, if_neg]
  rw [isSeparator, Bool.or_eq_true, Bool.or_eq_true, beq_iff_eq, beq_iff_eq, beq_iff_eq]
  rintro ((rfl | rfl) | rfl) <;> exact absurd hdigit (by decide)

/-- A suffix is read with its number if its label is the first that matches. -/
theorem suffix?_number {labels : List (List Char)} {cs label ds rest : List Char}
    (hlabel : stripOneOf? labels (skipSeparator cs) = some (label, ds ++ rest)) (hds : IsNumber ds)
    (hrest : ∀ c ∈ rest.head?, isDecimalDigit c = false) :
    suffix? labels cs = some (label, ds, rest) := by
  rw [suffix?, hlabel, Option.map_some]
  dsimp only
  rw [skipSeparator_number hds, digits_append hds.isDigit hrest]

/-- A suffix with its number, if a version has it. -/
def numbered (label : List Char) (suffix : Option ℕ) : List Char :=
  match suffix with
  | some n => label ++ decimal n
  | none => []

/-- A phase with its number, if a version has it. -/
def preChars (pre : Option (Phase × ℕ)) : List Char :=
  match pre with
  | some (phase, n) => phase.label ++ decimal n
  | none => []

/-- A local label with its sign, if a version has it. -/
def labelChars (label : Option String) : List Char :=
  match label with
  | some l => '+' :: l.toList
  | none => []

theorem behind_labelChars (label : Option String) : Behind (labelChars label) := by
  cases label with
  | none => exact behind_nil
  | some l => exact behind_cons rfl (by decide) (by decide) _

theorem Behind.numbered {rest : List Char} (h : Behind rest) {d : Char}
    (hd : isDecimalDigit d = false) (cs : List Char) (suffix : Option ℕ) :
    Behind (numbered ('.' :: d :: cs) suffix ++ rest) := by
  cases suffix with
  | none => exact h
  | some n => exact behind_point hd _

theorem Behind.preChars {rest : List Char} (h : Behind rest) (pre : Option (Phase × ℕ)) :
    Behind (preChars pre ++ rest) := by
  cases pre with
  | none => exact h
  | some p =>
    obtain ⟨phase, n⟩ := p
    cases phase <;> exact behind_cons rfl (by decide) (by decide) _

/-! ### Suffixes -/

/-- A development release and a label. -/
def devTail (dev : Option ℕ) (label : Option String) : List Char :=
  numbered ".dev".toList dev ++ labelChars label

/-- A post-release and what stands behind it. -/
def postTail (post dev : Option ℕ) (label : Option String) : List Char :=
  numbered ".post".toList post ++ devTail dev label

theorem behind_devTail (dev : Option ℕ) (label : Option String) : Behind (devTail dev label) :=
  (behind_labelChars label).numbered rfl _ dev

theorem behind_postTail (post dev : Option ℕ) (label : Option String) :
    Behind (postTail post dev label) :=
  (behind_devTail dev label).numbered rfl _ post

theorem dev?_chars (dev : Option ℕ) (label : Option String) :
    dev? (devTail dev label) = (dev.map decimal, labelChars label) := by
  cases dev with
  | none => cases label <;> rfl
  | some n =>
    have hsuffix : suffix? devLabels (devTail (some n) label) =
        some ("dev".toList, decimal n, labelChars label) :=
      suffix?_number rfl (isNumber_decimal n) (behind_labelChars label).digit
    rw [dev?, hsuffix]
    rfl

theorem post?_chars (post dev : Option ℕ) (label : Option String) :
    post? (postTail post dev label) = (post.map decimal, devTail dev label) := by
  cases post with
  | none => cases dev <;> cases label <;> rfl
  | some n =>
    have hsuffix : suffix? postLabels (postTail (some n) dev label) =
        some ("post".toList, decimal n, devTail dev label) :=
      suffix?_number rfl (isNumber_decimal n) (behind_devTail dev label).digit
    have hlabelled : post? (postTail (some n) dev label) =
        post?.labelled (postTail (some n) dev label) := rfl
    rw [hlabelled, post?.labelled, hsuffix]
    rfl

/-- The label of a phase is the first that matches: no label goes on with a digit. -/
theorem stripOneOf?_phase (phase : Phase) (n : ℕ) (rest : List Char) :
    stripOneOf? preLabels (skipSeparator (phase.label ++ decimal n ++ rest)) =
      some (phase.label, decimal n ++ rest) := by
  obtain ⟨d, ds, hdecimal⟩ := List.exists_cons_of_ne_nil (isNumber_decimal n).ne_nil
  have hmem : d ∈ Nat.toDigits 10 n := by
    rw [← decimal, hdecimal]
    exact List.mem_cons_self
  have hd : d.isDigit = true := Nat.isDigit_of_mem_toDigits (by decide) (by decide) hmem
  have hfold : ∀ l : Char, l.isDigit = false → fold d ≠ l := by
    rintro l hl rfl
    rw [fold_of_isDigit hd, hd] at hl
    cases hl
  have hl := hfold 'l' rfl
  have he := hfold 'e' rfl
  rw [hdecimal]
  cases phase with
  | alpha =>
    show stripOneOf? preLabels ('a' :: d :: (ds ++ rest)) = some (['a'], d :: (ds ++ rest))
    have halpha : stripLabel? "alpha".toList ('a' :: d :: (ds ++ rest)) = none := if_neg hl
    rw [stripOneOf?, preLabels, List.findSome?_cons, halpha]
    rfl
  | beta =>
    show stripOneOf? preLabels ('b' :: d :: (ds ++ rest)) = some (['b'], d :: (ds ++ rest))
    have hbeta : stripLabel? "beta".toList ('b' :: d :: (ds ++ rest)) = none := if_neg he
    rw [stripOneOf?, preLabels, List.findSome?_cons, List.findSome?_cons, List.findSome?_cons,
      hbeta]
    rfl
  | candidate => rfl

theorem pre?_chars (pre : Option (Phase × ℕ)) (post dev : Option ℕ) (label : Option String) :
    pre? (preChars pre ++ postTail post dev label) =
      (pre.map fun p => (p.1, decimal p.2), postTail post dev label) := by
  cases pre with
  | none => cases post <;> cases dev <;> cases label <;> rfl
  | some p =>
    obtain ⟨phase, n⟩ := p
    have hsuffix : suffix? preLabels (phase.label ++ decimal n ++ postTail post dev label) =
        some (phase.label, decimal n, postTail post dev label) :=
      suffix?_number (stripOneOf?_phase phase n _) (isNumber_decimal n)
        (behind_postTail post dev label).digit
    have hphase : phaseOf phase.label = phase := by cases phase <;> rfl
    rw [preChars, pre?, hsuffix]
    dsimp only
    rw [hphase]
    rfl

theorem label?_chars {label : Option String} (h : ∀ l ∈ label, isLabel l.toList = true) :
    label? (labelChars label) = some (label.map String.toList) := by
  cases label with
  | none => rfl
  | some l =>
    rw [labelChars, label?, if_pos]
    · rfl
    · rw [h l rfl]
      rfl

/-! ### All parts -/

/-- The epoch of a version as it is written. -/
def epochOf (epoch : ℕ) : Option (List Char) :=
  if epoch = 0 then none else some (decimal epoch)

theorem chars_eq (v : Version) : v.chars = epochChars (epochOf v.epoch) ++
    (Version.dotted v.release ++ (preChars v.pre ++ postTail v.post v.dev v.label)) := by
  obtain ⟨epoch, release, pre, post, dev, label⟩ := v
  have hepoch : epochChars (epochOf epoch) =
      if epoch = 0 then [] else decimal epoch ++ ['!'] := by
    unfold epochOf
    split <;> rfl
  rw [hepoch]
  cases pre <;> cases post <;> cases dev <;> cases label <;>
    simp [Version.chars, preChars, postTail, devTail, numbered, labelChars]

theorem isNumber_epochOf {epoch : ℕ} : ∀ e ∈ epochOf epoch, IsNumber e := by
  intro e he
  unfold epochOf at he
  split at he
  next => nomatch he
  next =>
    rw [← Option.mem_some_iff.1 he]
    exact isNumber_decimal epoch

/-- The epoch ends where it was written, and there is none where none was. -/
theorem epoch?_chars (epoch : ℕ) {ns : List ℕ} (hne : ns ≠ []) {rest : List Char}
    (h : Behind rest) : skipLetter (epochChars (epochOf epoch) ++ (Version.dotted ns ++ rest)) =
        epochChars (epochOf epoch) ++ (Version.dotted ns ++ rest) ∧
      epoch? (epochChars (epochOf epoch) ++ (Version.dotted ns ++ rest)) =
        (epochOf epoch, Version.dotted ns ++ rest) :=
  epoch?_numbers isNumber_epochOf (List.map_eq_nil_iff.not.2 hne) isNumber_of_mem_map_decimal
    fun c hc => ⟨h.digit c hc, h.bang c hc⟩

/-! ### Numbers -/

theorem suffixNumber_decimal {n : ℕ} (h : n ≤ maxWord) : suffixNumber (decimal n) = .ok n := by
  have hne : (decimal n).isEmpty = false := List.isEmpty_eq_false_iff.2 (isNumber_decimal n).ne_nil
  rw [suffixNumber, hne, if_neg Bool.false_ne_true, number_decimal h]

theorem epochNumber_epochOf {n : ℕ} (h : n ≤ maxWord) : epochNumber (epochOf n) = .ok n := by
  unfold epochOf
  split
  next hzero => rw [hzero, epochNumber]
  next => exact number_decimal h

theorem preNumber_decimal {pre : Option (Phase × ℕ)} (h : ∀ p ∈ pre, p.2 ≤ maxWord) :
    preNumber (pre.map fun p => (p.1, decimal p.2)) = .ok pre := by
  cases pre with
  | none => rfl
  | some p =>
    rw [Option.map_some, preNumber, suffixNumber_decimal (h p rfl)]
    rfl

theorem optionalNumber_decimal {suffix : Option ℕ} (h : ∀ n ∈ suffix, n ≤ maxWord) :
    optionalNumber (suffix.map decimal) = .ok suffix := by
  cases suffix with
  | none => rfl
  | some n =>
    rw [Option.map_some, optionalNumber, suffixNumber_decimal (h n rfl)]
    rfl

theorem le_maxWord_of_suffixNumber {cs : List Char} {n : ℕ} (h : suffixNumber cs = .ok n) :
    n ≤ maxWord := by
  unfold suffixNumber at h
  split at h
  next =>
    rw [← Except.ok.inj h]
    exact Nat.zero_le _
  next => exact le_maxWord_of_number h

theorem le_maxWord_of_epochNumber {epoch : Option (List Char)} {n : ℕ}
    (h : epochNumber epoch = .ok n) : n ≤ maxWord := by
  cases epoch with
  | none =>
    rw [← Except.ok.inj h]
    exact Nat.zero_le _
  | some e => exact le_maxWord_of_number h

theorem le_maxWord_of_preNumber {pre : Option (Phase × List Char)} {p? : Option (Phase × ℕ)}
    (h : preNumber pre = .ok p?) : ∀ p ∈ p?, p.2 ≤ maxWord := by
  intro p hp
  cases pre with
  | none =>
    rw [← Except.ok.inj h] at hp
    nomatch hp
  | some a =>
    obtain ⟨n, hn, rfl⟩ := Outcome.of_map h
    rw [← Option.mem_some_iff.1 hp]
    exact le_maxWord_of_suffixNumber hn

theorem le_maxWord_of_optionalNumber {suffix : Option (List Char)} {n? : Option ℕ}
    (h : optionalNumber suffix = .ok n?) : ∀ n ∈ n?, n ≤ maxWord := by
  intro n hn
  cases suffix with
  | none =>
    rw [← Except.ok.inj h] at hn
    nomatch hn
  | some ds =>
    obtain ⟨m, hm, rfl⟩ := Outcome.of_map h
    rw [← Option.mem_some_iff.1 hn]
    exact le_maxWord_of_suffixNumber hm

/-- The suffixes that a version was read from. -/
theorem suffixes_of_version {s : Spelling} {v : Version} (h : s.version = .ok v) :
    preNumber s.pre = .ok v.pre ∧ optionalNumber s.post = .ok v.post ∧
      optionalNumber s.dev = .ok v.dev ∧
        v.label = s.label.map fun l => String.ofList (lower l) := by
  rw [version_eq] at h
  obtain ⟨epoch, -, h⟩ := Outcome.of_bind h
  obtain ⟨release, -, h⟩ := Outcome.of_bind h
  obtain ⟨pre, hpre, h⟩ := Outcome.of_bind h
  obtain ⟨post, hpost, h⟩ := Outcome.of_bind h
  obtain ⟨dev, hdev, h⟩ := Outcome.of_bind h
  obtain rfl := Except.ok.inj h
  exact ⟨hpre, hpost, hdev, rfl⟩

/-- What is read as a local label is one. -/
theorem isLabel_of_read? {cs : List Char} {s : Spelling} (h : read? cs = some s) :
    ∀ l ∈ s.label, isLabel l = true := by
  unfold read? at h
  simp only [Option.bind_eq_bind, Option.bind_eq_some_iff] at h
  obtain ⟨⟨numbers, rest⟩, -, label, hlabel, hs⟩ := h
  obtain rfl := Option.some.inj hs
  dsimp only at hlabel ⊢
  intro l hl
  unfold label? at hlabel
  split at hlabel
  next =>
    rw [← Option.some.inj hlabel] at hl
    cases hl
  next c cs _ =>
    split at hlabel
    next hc =>
      rw [← Option.some.inj hlabel] at hl
      rw [Bool.and_eq_true] at hc
      rw [← Option.mem_some_iff.1 hl]
      exact hc.2
    next => cases hlabel

end Spelling

namespace Version

open Spelling

/-- A version that is read from some text: it has a release, only numbers of 64 bits, and a label
without capitals. -/
structure Readable (v : Version) : Prop where
  release_ne_nil : v.release ≠ []
  epoch : v.epoch ≤ maxWord
  release : ∀ n ∈ v.release, n ≤ maxWord
  pre : ∀ p ∈ v.pre, p.2 ≤ maxWord
  post : ∀ n ∈ v.post, n ≤ maxWord
  dev : ∀ n ∈ v.dev, n ≤ maxWord
  label : ∀ l ∈ v.label, isLabel l.toList = true ∧ lower l.toList = l.toList

/-- The parts of a version as they are written. -/
def spelling (v : Version) : Spelling where
  epoch := epochOf v.epoch
  release := v.release.map decimal
  pre := v.pre.map fun p => (p.1, decimal p.2)
  post := v.post.map decimal
  dev := v.dev.map decimal
  label := v.label.map String.toList

/-- Every part of the normal spelling is read where it was written. -/
theorem read?_chars {v : Version} (h : v.Readable) : read? v.chars = some v.spelling := by
  have hbehind := (behind_postTail v.post v.dev v.label).preChars v.pre
  obtain ⟨hletter, hepoch⟩ := epoch?_chars v.epoch h.release_ne_nil hbehind
  rw [chars_eq]
  unfold read?
  rw [hletter, hepoch]
  dsimp only
  rw [release?_dotted h.release_ne_nil hbehind.stops]
  simp only [Option.bind_eq_bind, Option.bind_some]
  rw [pre?_chars]
  dsimp only
  rw [post?_chars]
  dsimp only
  rw [dev?_chars]
  dsimp only
  rw [label?_chars fun l hl => (h.label l hl).1]
  rfl

/-- The numbers of the normal spelling are those of the version. -/
theorem version_spelling {v : Version} (h : v.Readable) : v.spelling.version = .ok v := by
  obtain ⟨epoch, release, pre, post, dev, label⟩ := v
  have hlabel : (label.map String.toList).map (fun l => String.ofList (lower l)) = label := by
    cases label with
    | none => rfl
    | some l =>
      rw [Option.map_some, Option.map_some, (h.label l rfl).2, String.ofList_toList]
  rw [version_eq, spelling]
  dsimp only
  rw [epochNumber_epochOf h.epoch, mapM_number_decimal h.release, preNumber_decimal h.pre,
    optionalNumber_decimal h.post, optionalNumber_decimal h.dev, hlabel]
  rfl

theorem read_chars {v : Version} (h : v.Readable) : Version.read v.chars = .ok v := by
  have hread := read?_chars h
  have hblankless : Blankless v.chars :=
    fun c hc => isBlank_of_isVersionChar (isVersionChar_of_read? hread c hc)
  rw [Version.read, trim_of_blankless hblankless, hread]
  exact version_spelling h

theorem readable_of_read {cs : List Char} {v : Version} (h : Version.read cs = .ok v) :
    v.Readable := by
  obtain ⟨s, hs, hversion⟩ := of_read h
  obtain ⟨hepoch, -⟩ := of_version hversion
  obtain ⟨hpre, hpost, hdev, hlabel⟩ := suffixes_of_version hversion
  obtain ⟨hne, hrelease⟩ := release_of_read h
  refine ⟨hne, le_maxWord_of_epochNumber hepoch, hrelease, le_maxWord_of_preNumber hpre,
    le_maxWord_of_optionalNumber hpost, le_maxWord_of_optionalNumber hdev, fun l hl => ?_⟩
  rw [hlabel] at hl
  obtain ⟨cs, hcs, rfl⟩ := Option.map_eq_some_iff.1 hl
  rw [String.toList_ofList]
  exact ⟨isLabel_lower (isLabel_of_read? hs cs hcs), lower_lower cs⟩

/-- The versions that are read from some text are those that are read from their own. -/
theorem read_chars_iff {v : Version} : Version.read v.chars = .ok v ↔ v.Readable :=
  ⟨readable_of_read, read_chars⟩

/-- The text of a version that was read is read as the same version, and so has itself as the text
of that; and it is the text of no other version that was read. -/
theorem toString_normalForm {text : String} {v : Version} (h : Version.parse text = .ok v) :
    Version.parse (toString v) = .ok v ∧
      (∀ v', Version.parse (toString v) = .ok v' → toString v' = toString v) ∧
      ∀ text' v', Version.parse text' = .ok v' → toString v' = toString v → v' = v := by
  have hagain : ∀ {text v}, Version.parse text = .ok v → Version.parse (toString v) = .ok v := by
    intro text v h
    have hread : Version.read v.chars = .ok v :=
      read_chars (readable_of_read (Outcome.of_mapError h))
    show (Version.read (String.ofList v.chars).toList).mapError _ = _
    rw [String.toList_ofList, hread]
    rfl
  refine ⟨hagain h, fun v' h' => ?_, fun text' v' h' hsame => ?_⟩
  · rw [Except.ok.inj (h'.symm.trans (hagain h))]
  · have hv' := hagain h'
    rw [hsame, hagain h] at hv'
    exact (Except.ok.inj hv').symm

/-- A candidate with a release in another spelling of every part. -/
def candidate : Version where
  epoch := 0
  release := [1, 0]
  pre := some (.candidate, 1)
  post := some 2
  dev := some 0
  label := some "ab.c"

theorem toString_candidate :
    Version.parse " V0!01.0-Preview.1_post-2.DEV+Ab.c" = .ok candidate ∧
      toString candidate = "1.0rc1.post2.dev0+ab.c" ∧
        Version.parse "1.0rc1.post2.dev0+ab.c" = .ok candidate := by
  have hparse : Version.parse " V0!01.0-Preview.1_post-2.DEV+Ab.c" = .ok candidate := by
    decide +kernel
  have htext : toString candidate = "1.0rc1.post2.dev0+ab.c" := by decide +kernel
  refine ⟨hparse, htext, ?_⟩
  rw [← htext]
  exact (toString_normalForm hparse).1

end Version

end Requisite
