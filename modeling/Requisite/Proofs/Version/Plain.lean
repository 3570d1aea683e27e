import Requisite.Proofs.Version.Normal
import Requisite.Proofs.Version.Series

/-!
# Plain releases

A plain release is written as an optional letter, an optional epoch and numbers with points between
them, and nothing else.  Its parts are read where they were written, also if a suffix follows, and a
text that is spelled like a version is a plain release exactly if the version has no suffix.

* `Spelling.Plain` — the parts of a plain release, and its text;
* `Spelling.IsPlain` — the texts of plain releases;
* **`Spelling.read?_plain`**, **`Spelling.read?_plain_dev`** — the parts are read again;
* **`Spelling.isPlain_of_read?`** — a text without suffixes is a plain release;
* **`Version.isPlain_iff`** — the versions that plain releases denote;
* **`Version.read_append_dev`** — a plain release with `.dev0` behind it is the earliest version of it.
-/

namespace Requisite

open Text

namespace Spelling

/-- The parts of a plain release as they are written. -/
structure Plain where
  letter : List Char
  epoch : Option (List Char)
  numbers : List (List Char)
  isLetter : letter ∈ [[], ['v'], ['V']]
  isEpoch : ∀ e ∈ epoch, IsNumber e
  ne_nil : numbers ≠ []
  isNumber : ∀ n ∈ numbers, IsNumber n

/-- The text of a plain release. -/
def Plain.chars (p : Plain) : List Char :=
  p.letter ++ (epochChars p.epoch ++ ['.'].intercalate p.numbers)

/-- The texts of plain releases. -/
def IsPlain (cs : List Char) : Prop :=
  ∃ p : Plain, p.chars = cs

/-! ### Plain releases are read -/

/-- A letter is skipped, and no second one. -/
theorem skipLetter_letter {letter cs : List Char} (hletter : letter ∈ [[], ['v'], ['V']])
    (h : skipLetter cs = cs) : skipLetter (letter ++ cs) = cs := by
  simp only [List.mem_cons, List.not_mem_nil, or_false] at hletter
  rcases hletter with rfl | rfl | rfl
  · exact h
  · rfl
  · rfl

/-- The parts of a plain release are read where they were written, whatever stands behind them that
no number goes on with. -/
theorem Plain.parts (p : Plain) {rest : List Char} (h : Behind rest) :
    epoch? (skipLetter (p.chars ++ rest)) = (p.epoch, ['.'].intercalate p.numbers ++ rest) ∧
      release? (['.'].intercalate p.numbers ++ rest) = some (p.numbers, rest) := by
  obtain ⟨hletter, hepoch⟩ := epoch?_numbers p.isEpoch p.ne_nil p.isNumber
    fun c hc => ⟨h.digit c hc, h.bang c hc⟩
  refine ⟨?_, release?_numbers p.ne_nil p.isNumber h.stops⟩
  rw [Plain.chars, List.append_assoc, List.append_assoc, skipLetter_letter p.isLetter hletter, hepoch]

theorem read?_plain (p : Plain) :
    read? p.chars = some ⟨p.epoch, p.numbers, none, none, none, none⟩ := by
  obtain ⟨hepoch, hrelease⟩ := p.parts behind_nil
  rw [List.append_nil] at hepoch
  unfold read?
  rw [hepoch]
  dsimp only
  rw [hrelease]
  rfl

/-- A development release of a plain release is read with the same parts. -/
theorem read?_plain_dev (p : Plain) :
    read? (p.chars ++ ".dev0".toList) = some ⟨p.epoch, p.numbers, none, none, some ['0'], none⟩ := by
  have hbehind : Behind ".dev0".toList := behind_point rfl "ev0".toList
  obtain ⟨hepoch, hrelease⟩ := p.parts hbehind
  unfold read?
  rw [hepoch]
  dsimp only
  rw [hrelease]
  rfl

/-- A plain release has no blank in it. -/
theorem IsPlain.blankless {cs : List Char} (h : IsPlain cs) : Blankless cs := by
  obtain ⟨p, rfl⟩ := h
  exact fun c hc => isBlank_of_isVersionChar (isVersionChar_of_read? (read?_plain p) c hc)

/-! ### Texts without suffixes are plain releases -/

theorem exists_letter (cs : List Char) :
    ∃ letter, letter ∈ [[], ['v'], ['V']] ∧ cs = letter ++ skipLetter cs := by
  cases cs with
  | nil => exact ⟨[], by decide, rfl⟩
  | cons c cs =>
    rw [skipLetter]
    split
    next h =>
      rw [Bool.or_eq_true, decide_eq_true_eq, decide_eq_true_eq] at h
      refine ⟨[c], ?_, rfl⟩
      rcases h with rfl | rfl <;> decide
    next => exact ⟨[], by decide, rfl⟩

theorem epochChars_append (cs : List Char) : epochChars (epoch? cs).1 ++ (epoch? cs).2 = cs := by
  unfold epoch?
  split
  next d ds rest hdigits =>
    rw [digits, List.span_eq_takeWhile_dropWhile] at hdigits
    obtain ⟨htake, hdrop⟩ := Prod.mk.inj hdigits
    rw [← List.takeWhile_append_dropWhile (p := isDecimalDigit) (l := cs), htake, hdrop, epochChars,
      List.append_assoc]
    rfl
  next => rfl

theorem isNumber_reverse {ds : List Char} (hds : ∀ c ∈ ds, isDecimalDigit c = true)
    (hne : ds ≠ []) : IsNumber ds.reverse where
  ne_nil hnil := hne (List.reverse_eq_nil_iff.1 hnil)
  isDigit c hc := hds c (List.mem_reverse.1 hc)

/-- Where no digit follows, the digits of the number have been read. -/
theorem ne_nil_of_not_isDecimalDigit {c : Char} {ds cs : List Char} (hc : ¬isDecimalDigit c = true)
    (hne : ds ≠ [] ∨ ∃ d ∈ (c :: cs).head?, isDecimalDigit d = true) : ds ≠ [] := by
  rcases hne with hne | ⟨d, hd, hdigit⟩
  · exact hne
  · rw [← Option.mem_some_iff.1 hd] at hdigit
    exact absurd hdigit hc

/-- The numbers of a release, with points between them, stand before the rest. -/
theorem moreRelease_join {ds cs : List Char} (hds : ∀ c ∈ ds, isDecimalDigit c = true)
    (hne : ds ≠ [] ∨ ∃ c ∈ cs.head?, isDecimalDigit c = true) :
    ['.'].intercalate (moreRelease ds cs).1 ++ (moreRelease ds cs).2 = ds.reverse ++ cs ∧
      ∀ n ∈ (moreRelease ds cs).1, IsNumber n := by
  fun_induction moreRelease ds cs with
  | case1 ds =>
    have hne : ds ≠ [] := by simpa using hne
    rw [List.intercalate_singleton]
    exact ⟨rfl, List.forall_mem_singleton.2 (isNumber_reverse hds hne)⟩
  | case2 ds c hc =>
    rw [List.intercalate_singleton, List.reverse_cons, List.append_nil, ← List.reverse_cons]
    exact ⟨rfl, List.forall_mem_singleton.2
      (isNumber_reverse (List.forall_mem_cons.2 ⟨hc, hds⟩) (List.cons_ne_nil c ds))⟩
  | case3 ds c hc =>
    have hnumber := isNumber_reverse hds (ne_nil_of_not_isDecimalDigit hc hne)
    rw [List.intercalate_singleton]
    exact ⟨rfl, List.forall_mem_singleton.2 hnumber⟩
  | case4 ds c d cs hc ih =>
    rw [List.reverse_cons, List.append_assoc] at ih
    exact ih (List.forall_mem_cons.2 ⟨hc, hds⟩) (Or.inl (List.cons_ne_nil c ds))
  | case5 ds c d cs hc hpoint numbers rest hmore ih =>
    rw [Bool.and_eq_true, decide_eq_true_eq] at hpoint
    obtain ⟨hjoin, hnumbers⟩ := ih (by simp) (Or.inr ⟨d, rfl, hpoint.2⟩)
    have hsplit := moreRelease_ne_nil [] (d :: cs)
    rw [hmore] at hjoin hnumbers hsplit
    obtain ⟨n, ns, rfl⟩ := List.exists_cons_of_ne_nil hsplit
    have hnumber := isNumber_reverse hds (ne_nil_of_not_isDecimalDigit hc hne)
    refine ⟨?_, List.forall_mem_cons.2 ⟨hnumber, hnumbers⟩⟩
    rw [List.intercalate_cons_cons, List.append_assoc, hjoin, hpoint.1, List.append_assoc]
    rfl
  | case6 ds c d cs hc _ =>
    have hnumber := isNumber_reverse hds (ne_nil_of_not_isDecimalDigit hc hne)
    rw [List.intercalate_singleton]
    exact ⟨rfl, List.forall_mem_singleton.2 hnumber⟩

theorem release?_join {cs rest : List Char} {numbers : List (List Char)}
    (h : release? cs = some (numbers, rest)) : ['.'].intercalate numbers ++ rest = cs ∧
      numbers ≠ [] ∧ ∀ n ∈ numbers, IsNumber n := by
  cases cs with
  | nil => cases h
  | cons c cs =>
    rw [release?] at h
    split at h
    next hc =>
      obtain ⟨hjoin, hnumbers⟩ := @moreRelease_join [] (c :: cs) (by simp) (Or.inr ⟨c, rfl, hc⟩)
      have hne := moreRelease_ne_nil [] (c :: cs)
      rw [Option.some.inj h] at hjoin hnumbers hne
      exact ⟨hjoin, hne, hnumbers⟩
    next => cases h

/-- A suffix that is not read takes nothing. -/
theorem pre?_eq_self {cs : List Char} (h : (pre? cs).1 = none) : (pre? cs).2 = cs := by
  unfold pre? at h ⊢
  split
  next heq =>
    rw [heq] at h
    nomatch h
  next => rfl

theorem labelled_eq_self {cs : List Char} (h : (post?.labelled cs).1 = none) :
    (post?.labelled cs).2 = cs := by
  unfold post?.labelled at h ⊢
  split
  next heq =>
    rw [heq] at h
    nomatch h
  next => rfl

theorem post?_eq_self {cs : List Char} (h : (post? cs).1 = none) : (post? cs).2 = cs := by
  unfold post? at h ⊢
  split
  next d rest =>
    change (if isDecimalDigit d = true then (some (digits (d :: rest)).1, (digits (d :: rest)).2)
      else post?.labelled ('-' :: d :: rest)).1 = none at h
    split
    next hd =>
      rw [if_pos hd] at h
      nomatch h
    next hd =>
      rw [if_neg hd] at h
      exact labelled_eq_self h
  next => exact labelled_eq_self (by simpa using h)

theorem dev?_eq_self {cs : List Char} (h : (dev? cs).1 = none) : (dev? cs).2 = cs := by
  unfold dev? at h ⊢
  split
  next heq =>
    rw [heq] at h
    nomatch h
  next => rfl

theorem eq_nil_of_label? {cs : List Char} (h : label? cs = some none) : cs = [] := by
  cases cs with
  | nil => rfl
  | cons c cs =>
    rw [label?] at h
    split at h <;> cases h

/-- A text that is spelled like a version without suffixes is a plain release. -/
theorem isPlain_of_read? {cs : List Char} {s : Spelling} (h : read? cs = some s)
    (hpre : s.pre = none) (hpost : s.post = none) (hdev : s.dev = none) (hlabel : s.label = none) :
    IsPlain cs := by
  unfold read? at h
  simp only [Option.bind_eq_bind, Option.bind_eq_some_iff] at h
  obtain ⟨⟨numbers, rest⟩, hrelease, label, hrest, hs⟩ := h
  obtain rfl := Option.some.inj hs
  dsimp only at hpre hpost hdev hlabel hrest
  subst hlabel
  rw [dev?_eq_self hdev, post?_eq_self hpost, pre?_eq_self hpre] at hrest
  obtain rfl := eq_nil_of_label? hrest
  obtain ⟨hjoin, hne, hnumbers⟩ := release?_join hrelease
  obtain ⟨letter, hletter, hcs⟩ := exists_letter cs
  have hepoch := epochChars_append (skipLetter cs)
  refine ⟨⟨letter, (epoch? (skipLetter cs)).1, numbers, hletter, fun e he => isNumber_epoch? he, hne,
    hnumbers⟩, ?_⟩
  rw [List.append_nil] at hjoin
  rw [Plain.chars, hjoin, hepoch, ← hcs]

end Spelling

namespace Version

open Spelling

/-- A pre-release is read exactly if it is written. -/
theorem preNumber_eq_none_iff {pre : Option (Phase × List Char)} {p? : Option (Phase × ℕ)}
    (h : preNumber pre = .ok p?) : p? = none ↔ pre = none := by
  cases pre with
  | none =>
    rw [← Except.ok.inj h]
    exact iff_of_true rfl rfl
  | some p =>
    obtain ⟨n, -, rfl⟩ := Outcome.of_map h
    exact iff_of_false nofun nofun

/-- Another suffix is read exactly if it is written. -/
theorem optionalNumber_eq_none_iff {suffix : Option (List Char)} {n? : Option ℕ}
    (h : optionalNumber suffix = .ok n?) : n? = none ↔ suffix = none := by
  cases suffix with
  | none =>
    rw [← Except.ok.inj h]
    exact iff_of_true rfl rfl
  | some ds =>
    obtain ⟨n, -, rfl⟩ := Outcome.of_map h
    exact iff_of_false nofun nofun

theorem eq_ofRelease_iff {v : Version} : v = ofRelease v.epoch v.release ↔
    v.pre = none ∧ v.post = none ∧ v.dev = none ∧ v.label = none := by
  obtain ⟨epoch, release, pre, post, dev, label⟩ := v
  simp only [ofRelease, mk.injEq, true_and]

/-- A version without suffixes is read from no written suffix. -/
theorem version_eq_ofRelease_iff {s : Spelling} {v : Version} (h : s.version = .ok v) :
    v = ofRelease v.epoch v.release ↔
      s.pre = none ∧ s.post = none ∧ s.dev = none ∧ s.label = none := by
  obtain ⟨hpre, hpost, hdev, hlabel⟩ := suffixes_of_version h
  rw [eq_ofRelease_iff, preNumber_eq_none_iff hpre, optionalNumber_eq_none_iff hpost,
    optionalNumber_eq_none_iff hdev, hlabel, Option.map_eq_none_iff]

/-- A text denotes a version without suffixes exactly if it is a plain release. -/
theorem isPlain_iff {cs : List Char} {v : Version} (h : Version.read cs = .ok v) :
    IsPlain (trim cs) ↔ v = ofRelease v.epoch v.release := by
  obtain ⟨s, hs, hversion⟩ := of_read h
  rw [version_eq_ofRelease_iff hversion]
  constructor
  · rintro ⟨p, hp⟩
    rw [← hp, read?_plain] at hs
    obtain rfl := Option.some.inj hs
    exact ⟨rfl, rfl, rfl, rfl⟩
  · rintro ⟨hpre, hpost, hdev, hlabel⟩
    exact isPlain_of_read? hs hpre hpost hdev hlabel

/-- With `.dev0` behind it, a plain release denotes the earliest version of it. -/
theorem read_append_dev {cs : List Char} {epoch : ℕ} {release : List ℕ} (hblank : Blankless cs)
    (h : Version.read cs = .ok (ofRelease epoch release)) :
    Version.read (cs ++ ".dev0".toList) = .ok (earliest epoch release) := by
  obtain ⟨p, hp⟩ := (isPlain_iff h).2 rfl
  rw [trim_of_blankless hblank] at hp
  obtain ⟨s, hs, hversion⟩ := of_read h
  rw [trim_of_blankless hblank, ← hp, read?_plain] at hs
  obtain rfl := Option.some.inj hs
  obtain ⟨hepoch, hrelease⟩ := of_version hversion
  have hend : Blankless (cs ++ ".dev0".toList) := hblank.append (by decide)
  rw [Version.read, trim_of_blankless hend, ← hp, read?_plain_dev]
  dsimp only at hepoch hrelease ⊢
  rw [version_eq]
  dsimp only
  rw [hepoch, hrelease]
  rfl

end Version

end Requisite
