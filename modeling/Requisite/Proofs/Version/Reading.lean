import Requisite.Proofs.Outcome
import Requisite.Proofs.Version.Spelling

/-!
# Reading releases again

Dotted numbers are read as they were written, with an epoch before them or without one, and what was
read of a version tells which numbers stood in its text.

* `Spelling.Stops` — a text that a release does not go on with;
* **`Spelling.release?_dotted`** — dotted numbers are read again;
* **`Spelling.of_version`** — the numbers that a version was read from;
* **`Version.read_ofRelease`** — a version without suffixes is read from its epoch and its release.
-/

namespace Requisite

open Text

namespace Spelling

/-! ### Runs of digits -/

/-- A run of digits, with at least one. -/
structure IsNumber (ds : List Char) : Prop where
  ne_nil : ds ≠ []
  isDigit : ∀ c ∈ ds, isDecimalDigit c = true

theorem isNumber_decimal (n : ℕ) : IsNumber (decimal n) where
  ne_nil := Nat.toDigits_ne_nil
  isDigit _ hc := isDecimalDigit_of_isDigit (Nat.isDigit_of_mem_toDigits (by decide) (by decide) hc)

/-- A run of digits ends where no digit follows. -/
theorem digits_append {ds rest : List Char} (hds : ∀ c ∈ ds, isDecimalDigit c = true)
    (hrest : ∀ c ∈ rest.head?, isDecimalDigit c = false) : digits (ds ++ rest) = (ds, rest) := by
  have hstop : rest.takeWhile isDecimalDigit = [] ∧ rest.dropWhile isDecimalDigit = rest := by
    cases rest with
    | nil => exact ⟨rfl, rfl⟩
    | cons c rest =>
      have hc : ¬isDecimalDigit c = true := Bool.eq_false_iff.1 (hrest c rfl)
      exact ⟨List.takeWhile_cons_of_neg hc, List.dropWhile_cons_of_neg hc⟩
  rw [digits, List.span_eq_takeWhile_dropWhile, List.takeWhile_append_of_pos hds,
    List.dropWhile_append_of_pos hds, hstop.1, hstop.2, List.append_nil]

/-- No letter stands before a number. -/
theorem skipLetter_number {ds : List Char} (h : IsNumber ds) (rest : List Char) :
    skipLetter (ds ++ rest) = ds ++ rest := by
  obtain ⟨c, ds, rfl⟩ := List.exists_cons_of_ne_nil h.ne_nil
  have hdigit := h.isDigit c (List.mem_cons_self ..)
  rw [List.cons_append, skipLetter, if_neg]
  rw [Bool.or_eq_true, decide_eq_true_eq, decide_eq_true_eq]
  rintro (rfl | rfl)
  · exact absurd hdigit (by decide)
  · exact absurd hdigit (by decide)

/-! ### Epochs -/

theorem epoch?_number {ds : List Char} (h : IsNumber ds) (rest : List Char) :
    epoch? (ds ++ '!' :: rest) = (some ds, rest) := by
  obtain ⟨c, ds, rfl⟩ := List.exists_cons_of_ne_nil h.ne_nil
  have hstop : ∀ c ∈ ('!' :: rest).head?, isDecimalDigit c = false := by
    intro c hc
    rw [← Option.mem_some_iff.1 hc]
    rfl
  rw [epoch?, digits_append h.isDigit hstop]
  rfl

theorem epoch?_of_ne {ds rest : List Char} (hds : ∀ c ∈ ds, isDecimalDigit c = true)
    (hrest : ∀ c ∈ rest.head?, isDecimalDigit c = false ∧ c ≠ '!') :
    epoch? (ds ++ rest) = (none, ds ++ rest) := by
  rw [epoch?, digits_append hds fun c hc => (hrest c hc).1]
  split
  next heq =>
    cases heq
    exact absurd rfl (hrest '!' rfl).2
  next => rfl

/-- What is read as an epoch is a number. -/
theorem isNumber_epoch? {cs ds : List Char} (h : (epoch? cs).1 = some ds) : IsNumber ds := by
  unfold epoch? at h
  split at h
  next d ds' rest hdigits =>
    obtain rfl := Option.some.inj h
    rw [digits, List.span_eq_takeWhile_dropWhile] at hdigits
    refine ⟨List.cons_ne_nil d ds', fun c hc => ?_⟩
    rw [← (Prod.mk.inj hdigits).1] at hc
    exact List.mem_takeWhile_imp hc
  next => cases h

/-! ### Releases -/

/-- A release does not go on here: neither with a digit nor with another number. -/
def Stops : List Char → Prop
  | [] => True
  | [c] => isDecimalDigit c = false
  | c :: d :: _ => isDecimalDigit c = false ∧ (c = '.' → isDecimalDigit d = false)

theorem moreRelease_of_stops {rest : List Char} (h : Stops rest) (ds : List Char) :
    moreRelease ds rest = ([ds.reverse], rest) := by
  match rest, h with
  | [], _ => rfl
  | [c], hc => exact if_neg (Bool.eq_false_iff.1 hc)
  | c :: d :: cs, ⟨hc, hd⟩ =>
    rw [moreRelease, if_neg (Bool.eq_false_iff.1 hc), if_neg]
    rw [Bool.and_eq_true, decide_eq_true_eq, not_and]
    intro hdot
    rw [hd hdot]
    exact Bool.false_ne_true

theorem moreRelease_digit {c : Char} (hc : isDecimalDigit c = true) (ds cs : List Char) :
    moreRelease ds (c :: cs) = moreRelease (c :: ds) cs := by
  cases cs with
  | nil => exact if_pos hc
  | cons d cs => exact if_pos hc

theorem moreRelease_number {number : List Char} (h : ∀ c ∈ number, isDecimalDigit c = true)
    (ds cs : List Char) : moreRelease ds (number ++ cs) = moreRelease (number.reverse ++ ds) cs := by
  induction number generalizing ds with
  | nil => rfl
  | cons c number ih =>
    obtain ⟨hc, h⟩ := List.forall_mem_cons.1 h
    rw [List.cons_append, moreRelease_digit hc, ih h, List.reverse_cons, List.append_assoc]
    rfl

/-- After a point the next number begins. -/
theorem moreRelease_point {number : List Char} (h : IsNumber number) (ds cs : List Char) :
    moreRelease ds ('.' :: (number ++ cs)) =
      (ds.reverse :: (moreRelease [] (number ++ cs)).1, (moreRelease [] (number ++ cs)).2) := by
  obtain ⟨c, number, rfl⟩ := List.exists_cons_of_ne_nil h.ne_nil
  have hc := h.isDigit c (List.mem_cons_self ..)
  have hpoint : isDecimalDigit '.' = false := rfl
  rw [List.cons_append, moreRelease, if_neg (Bool.eq_false_iff.1 hpoint), if_pos (by simp [hc])]

/-- Numbers with points between them start with the first one, behind which no epoch ends. -/
theorem exists_tail (number : List Char) (numbers : List (List Char)) :
    ∃ tail, ['.'].intercalate (number :: numbers) = number ++ tail ∧ ∀ c ∈ tail.head?, c = '.' := by
  cases numbers with
  | nil => exact ⟨[], by rw [List.intercalate_singleton, List.append_nil], nofun⟩
  | cons n ns =>
    refine ⟨'.' :: ['.'].intercalate (n :: ns), ?_, fun c hc => (Option.mem_some_iff.1 hc).symm⟩
    rw [List.intercalate_cons_cons, List.append_assoc]
    rfl

theorem moreRelease_numbers {number : List Char} {numbers : List (List Char)}
    (h : ∀ n ∈ number :: numbers, IsNumber n) {rest : List Char} (hrest : Stops rest) :
    moreRelease [] (['.'].intercalate (number :: numbers) ++ rest) = (number :: numbers, rest) := by
  induction numbers generalizing number with
  | nil =>
    have hnumber := h number List.mem_cons_self
    rw [List.intercalate_singleton, moreRelease_number hnumber.isDigit, moreRelease_of_stops hrest,
      List.append_nil, List.reverse_reverse]
  | cons n ns ih =>
    obtain ⟨hnumber, h⟩ := List.forall_mem_cons.1 h
    obtain ⟨tail, htail, -⟩ := exists_tail n ns
    have hpoint : ['.'].intercalate (number :: n :: ns) ++ rest =
        number ++ '.' :: (n ++ (tail ++ rest)) := by
      rw [List.intercalate_cons_cons, htail]
      simp only [List.append_assoc, List.cons_append, List.nil_append]
    rw [hpoint, moreRelease_number hnumber.isDigit, moreRelease_point (h n List.mem_cons_self),
      ← List.append_assoc n, ← htail, ih h, List.append_nil, List.reverse_reverse]

/-- Numbers with points between them are read again, whatever a release does not go on with behind
them. -/
theorem release?_numbers {numbers : List (List Char)} (hne : numbers ≠ [])
    (h : ∀ n ∈ numbers, IsNumber n) {rest : List Char} (hrest : Stops rest) :
    release? (['.'].intercalate numbers ++ rest) = some (numbers, rest) := by
  obtain ⟨number, numbers, rfl⟩ := List.exists_cons_of_ne_nil hne
  have hmore := moreRelease_numbers h hrest
  obtain ⟨tail, htail, -⟩ := exists_tail number numbers
  have hnumber := h number List.mem_cons_self
  obtain ⟨c, ds, rfl⟩ := List.exists_cons_of_ne_nil hnumber.ne_nil
  rw [htail, List.cons_append, List.cons_append] at hmore ⊢
  rw [release?, if_pos (hnumber.isDigit c List.mem_cons_self), hmore]

theorem isNumber_of_mem_map_decimal {ns : List ℕ} : ∀ n ∈ ns.map decimal, IsNumber n := by
  intro n hn
  obtain ⟨m, -, rfl⟩ := List.mem_map.1 hn
  exact isNumber_decimal m

/-- Dotted numbers are read again, whatever a release does not go on with behind them. -/
theorem release?_dotted {ns : List ℕ} (hne : ns ≠ []) {rest : List Char} (h : Stops rest) :
    release? (Version.dotted ns ++ rest) = some (ns.map decimal, rest) :=
  release?_numbers (List.map_eq_nil_iff.not.2 hne) isNumber_of_mem_map_decimal h

/-- An epoch with its sign. -/
def epochChars (epoch : Option (List Char)) : List Char :=
  match epoch with
  | some e => e ++ ['!']
  | none => []

/-- Before a release no letter is skipped, and the epoch ends where it was written. -/
theorem epoch?_numbers {epoch : Option (List Char)} (hepoch : ∀ e ∈ epoch, IsNumber e)
    {numbers : List (List Char)} (hne : numbers ≠ []) (h : ∀ n ∈ numbers, IsNumber n)
    {rest : List Char} (hrest : ∀ c ∈ rest.head?, isDecimalDigit c = false ∧ c ≠ '!') :
    skipLetter (epochChars epoch ++ (['.'].intercalate numbers ++ rest)) =
        epochChars epoch ++ (['.'].intercalate numbers ++ rest) ∧
      epoch? (epochChars epoch ++ (['.'].intercalate numbers ++ rest)) =
        (epoch, ['.'].intercalate numbers ++ rest) := by
  cases epoch with
  | some e =>
    have he := hepoch e rfl
    rw [epochChars, List.append_assoc]
    exact ⟨skipLetter_number he _, epoch?_number he _⟩
  | none =>
    obtain ⟨number, numbers, rfl⟩ := List.exists_cons_of_ne_nil hne
    have hnumber := h number List.mem_cons_self
    obtain ⟨tail, htail, hpoint⟩ := exists_tail number numbers
    have hstop : ∀ c ∈ (tail ++ rest).head?, isDecimalDigit c = false ∧ c ≠ '!' := by
      cases tail with
      | nil => exact hrest
      | cons d tail =>
        intro c hc
        rw [hpoint c hc]
        exact ⟨rfl, by decide⟩
    rw [epochChars, List.nil_append, htail, List.append_assoc]
    exact ⟨skipLetter_number hnumber _, epoch?_of_ne hnumber.isDigit hstop⟩

/-! ### Numbers -/

theorem number_decimal {n : ℕ} (h : n ≤ maxWord) : number (decimal n) = .ok n := by
  rw [number, readWord?_decimal h]

theorem le_maxWord_of_number {cs : List Char} {n : ℕ} (h : number cs = .ok n) : n ≤ maxWord := by
  unfold number at h
  split at h
  next m hread =>
    obtain rfl := Except.ok.inj h
    unfold readWord? at hread
    split at hread
    next => nomatch hread
    next =>
      dsimp only at hread
      split at hread
      next hle => rwa [← Option.some.inj hread]
      next => nomatch hread
  next => nomatch h

theorem mapM_number_decimal {ns : List ℕ} (h : ∀ n ∈ ns, n ≤ maxWord) :
    (ns.map decimal).mapM number = .ok ns := by
  induction ns with
  | nil => rfl
  | cons n ns ih =>
    obtain ⟨hn, h⟩ := List.forall_mem_cons.1 h
    rw [List.map_cons, List.mapM_cons, number_decimal hn, ih h]
    rfl

/-- The number of an epoch, zero where none is written. -/
def epochNumber (epoch : Option (List Char)) : Except VersionFault ℕ :=
  match epoch with
  | some e => number e
  | none => .ok 0

/-- The number of a pre-release with its phase, if one is written. -/
def preNumber (pre : Option (Phase × List Char)) : Except VersionFault (Option (Phase × ℕ)) :=
  match pre with
  | some (phase, n) => (suffixNumber n).map fun n => some (phase, n)
  | none => .ok none

/-- The number of another suffix, if one is written. -/
def optionalNumber (suffix : Option (List Char)) : Except VersionFault (Option ℕ) :=
  match suffix with
  | some n => (suffixNumber n).map some
  | none => .ok none

/-- A version is read from the numbers of its parts, one after the other. -/
theorem version_eq (s : Spelling) : s.version = (do
    let epoch ← epochNumber s.epoch
    let release ← s.release.mapM number
    let pre ← preNumber s.pre
    let post ← optionalNumber s.post
    let dev ← optionalNumber s.dev
    .ok ⟨epoch, release, pre, post, dev, s.label.map fun l => String.ofList (lower l)⟩) := by
  obtain ⟨epoch, release, pre, post, dev, label⟩ := s
  cases epoch <;> cases pre <;> cases post <;> cases dev <;> rfl

/-- The numbers that a version was read from. -/
theorem of_version {s : Spelling} {v : Version} (h : s.version = .ok v) :
    epochNumber s.epoch = .ok v.epoch ∧ s.release.mapM number = .ok v.release := by
  rw [version_eq] at h
  obtain ⟨epoch, hepoch, h⟩ := Outcome.of_bind h
  obtain ⟨release, hrelease, h⟩ := Outcome.of_bind h
  obtain ⟨pre, -, h⟩ := Outcome.of_bind h
  obtain ⟨post, -, h⟩ := Outcome.of_bind h
  obtain ⟨dev, -, h⟩ := Outcome.of_bind h
  obtain rfl := Except.ok.inj h
  exact ⟨hepoch, hrelease⟩

theorem moreRelease_ne_nil (ds cs : List Char) : (moreRelease ds cs).1 ≠ [] := by
  fun_induction moreRelease ds cs with
  | case4 ds c d cs h ih => exact ih
  | _ => exact List.cons_ne_nil _ _

/-- The epoch that a text starts with, and its release, which has a number. -/
theorem of_read? {cs : List Char} {s : Spelling} (h : read? cs = some s) :
    s.epoch = (epoch? (skipLetter cs)).1 ∧ s.release ≠ [] := by
  unfold read? at h
  simp only [Option.bind_eq_bind, Option.bind_eq_some_iff] at h
  obtain ⟨⟨numbers, rest⟩, hrelease, label, -, hs⟩ := h
  obtain rfl := Option.some.inj hs
  refine ⟨rfl, ?_⟩
  cases hcs : (epoch? (skipLetter cs)).2 with
  | nil =>
    rw [hcs] at hrelease
    cases hrelease
  | cons c ds =>
    rw [hcs, release?] at hrelease
    split at hrelease
    next =>
      have hne := moreRelease_ne_nil [] (c :: ds)
      rwa [Option.some.inj hrelease] at hne
    next => cases hrelease

/-- An epoch and a release are read again. -/
theorem read?_release {epoch : Option (List Char)} (hepoch : ∀ e ∈ epoch, IsNumber e) {ns : List ℕ}
    (hne : ns ≠ []) : read? (epochChars epoch ++ Version.dotted ns) =
      some ⟨epoch, ns.map decimal, none, none, none, none⟩ := by
  have hparts := @epoch?_numbers epoch hepoch (ns.map decimal) (List.map_eq_nil_iff.not.2 hne)
    isNumber_of_mem_map_decimal [] nofun
  have hrelease := @release?_dotted ns hne [] trivial
  rw [List.append_nil] at hparts hrelease
  unfold read?
  rw [Version.dotted, hparts.1, hparts.2]
  dsimp only
  rw [← Version.dotted, hrelease]
  rfl

theorem blankless_release {epoch : Option (List Char)} (hepoch : ∀ e ∈ epoch, IsNumber e)
    {ns : List ℕ} (hne : ns ≠ []) : Blankless (epochChars epoch ++ Version.dotted ns) :=
  fun c hc => isBlank_of_isVersionChar (isVersionChar_of_read? (read?_release hepoch hne) c hc)

end Spelling

namespace Version

/-- A version is read from a spelling. -/
theorem of_read {cs : List Char} {v : Version} (h : Version.read cs = .ok v) :
    ∃ s, Spelling.read? (trim cs) = some s ∧ s.version = .ok v := by
  unfold Version.read at h
  split at h
  next s hs => exact ⟨s, hs, h⟩
  next => nomatch h

/-- The release of a version that was read has a number, and only numbers of 64 bits. -/
theorem release_of_read {cs : List Char} {v : Version} (h : Version.read cs = .ok v) :
    v.release ≠ [] ∧ ∀ n ∈ v.release, n ≤ maxWord := by
  obtain ⟨s, hs, hversion⟩ := of_read h
  have hnumbers := (Spelling.of_version hversion).2
  refine ⟨fun hnil => (Spelling.of_read? hs).2 ?_, fun n hn => ?_⟩
  · have hlength := Outcome.length_of_mapM hnumbers
    rw [hnil] at hlength
    exact List.length_eq_zero_iff.1 hlength.symm
  · obtain ⟨number, -, hn⟩ := Outcome.mem_of_mapM hnumbers hn
    exact Spelling.le_maxWord_of_number hn

/-- A version is written with few characters, blanks at its ends apart. -/
theorem chars_of_read {cs : List Char} {v : Version} (h : Version.read cs = .ok v) :
    ∀ c ∈ cs, Spelling.isVersionChar c = true ∨ isBlank c = true := by
  obtain ⟨s, hs, -⟩ := of_read h
  obtain ⟨a, b, hcs, ha, hb⟩ := exists_blanks_trim cs
  intro c hc
  rw [hcs, List.mem_append, List.mem_append] at hc
  rcases hc with (hc | hc) | hc
  · exact Or.inr (ha c hc)
  · exact Or.inl (Spelling.isVersionChar_of_read? hs c hc)
  · exact Or.inr (hb c hc)

/-- A version without suffixes is read from its epoch and its release. -/
theorem read_ofRelease {epoch : Option (List Char)} {n : ℕ}
    (hepoch : ∀ e ∈ epoch, Spelling.IsNumber e) (hn : Spelling.epochNumber epoch = .ok n)
    {ns : List ℕ} (hne : ns ≠ []) (hword : ∀ n ∈ ns, n ≤ maxWord) :
    Version.read (Spelling.epochChars epoch ++ dotted ns) = .ok (ofRelease n ns) := by
  unfold Version.read
  rw [trim_of_blankless (Spelling.blankless_release hepoch hne), Spelling.read?_release hepoch hne]
  dsimp only
  rw [Spelling.version_eq, hn, Spelling.mapM_number_decimal hword]
  rfl

end Version

end Requisite
