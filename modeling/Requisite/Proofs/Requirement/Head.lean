import Requisite.Proofs.Requirement.Target

/-!
# Reading the head of a written requirement again

A requirement is written as its name with its extras and its origin, before marker and hashes.  The
name and the extras are read again as they are, and so is the range of a requirement from an index.

* `Requirement.lead` — a requirement as it is written, up to its marker;
* **`readName_head`** — the name and the extras are read again;
* **`Requirement.readHead_lead`** — the lead is read again, if and only if it does not end in a blank.
-/

namespace Requisite

open Text Options

/-! ### Names and extras -/

namespace Name

/-- What a package name is. -/
theorem of_isValid {cs : List Char} (h : isValid cs = true) :
    (∀ c ∈ cs, isNameChar c = true) ∧ ∃ c ds, cs = c :: ds ∧ c.isAlphanum = true := by
  cases cs with
  | nil => nomatch h
  | cons c ds =>
    simp only [isValid, Bool.and_eq_true, List.all_eq_true] at h
    exact ⟨h.1.2, c, ds, rfl, h.1.1⟩

theorem ne_nil_of_isValid {cs : List Char} (h : isValid cs = true) : cs ≠ [] := by
  obtain ⟨c, ds, rfl, -⟩ := (of_isValid h).2
  exact List.cons_ne_nil c ds

theorem blankless_of_isValid {cs : List Char} (h : isValid cs = true) : Blankless cs :=
  fun c hc => isBlank_of_isNameChar ((of_isValid h).1 c hc)

theorem without_of_isValid {cs : List Char} (h : isValid cs = true) :
    Without ['[', ']', '@', ';'] cs :=
  without_of_forall (of_isValid h).1 (by decide)

theorem IsExtra.isEntryText {cs : List Char} (h : IsExtra cs) : IsEntryText cs where
  ne_nil := by rw [h.trimmed]; exact h.ne_nil
  plain := h.plain.of_subset (by decide)

end Name

/-- No name goes on with a blank. -/
theorem Options.Parted.not_isNameChar {cs : List Char} (h : Parted cs) :
    ∀ c ∈ cs.head?, Name.isNameChar c = false := by
  intro c hc
  rw [Bool.eq_false_iff]
  intro hchar
  have hblank := h c hc
  rw [Name.isBlank_of_isNameChar hchar] at hblank
  nomatch hblank

theorem isExtra_of_mem_map {extras : List String} (h : ∀ e ∈ extras, Name.IsExtra e.toList) :
    ∀ e ∈ extras.map String.toList, Name.IsExtra e := by
  intro e he
  obtain ⟨e', he', rfl⟩ := List.mem_map.1 he
  exact h e' he'

theorem extrasChars_eq {extras : List String} (h : extras ≠ []) :
    extrasChars extras = '[' :: ([','].intercalate (extras.map String.toList) ++ [']']) := by
  rw [extrasChars, if_neg (by simpa using h)]
  rfl

section Head

variable {name : String} {extras : List String} (hname : Name.isValid name.toList = true)
  (hextras : ∀ e ∈ extras, Name.IsExtra e.toList)

include hname hextras

/-- The name and the extras as they are written have no signs of targets and markers. -/
theorem without_head : Without ['@', ';'] (name.toList ++ extrasChars extras) := by
  refine ((Name.without_of_isValid hname).of_subset (by decide)).append ?_
  by_cases hne : extras = []
  · rw [hne]
    exact fun c _ => List.not_mem_nil
  · have hinner : Without ['@', ';'] ([','].intercalate (extras.map String.toList)) :=
      Without.intercalate (fun e he => (isExtra_of_mem_map hextras e he).plain.of_subset (by decide))
        (by decide)
    rw [extrasChars_eq hne]
    have hopen : Without ['@', ';'] ['['] := by decide
    have hclose : Without ['@', ';'] [']'] := by decide
    exact hopen.append (hinner.append hclose)

/-- No option stands in the name and the extras as they are written. -/
theorem free_head : Free (name.toList ++ extrasChars extras) := by
  refine Free.of_word (Name.blankless_of_isValid hname) ?_
  by_cases hne : extras = []
  · rw [hne]
    exact free_nil
  · have hinner : Free ([','].intercalate (extras.map String.toList)) :=
      free_intercalate (isSign_of_mem ',' (by decide)) fun e he =>
        (isExtra_of_mem_map hextras e he).free
    rw [extrasChars_eq hne]
    exact ⟨nofun, hinner.append_cons (isSign_of_mem ']' (by decide)) free_nil⟩

omit hextras in
/-- The name and the extras start with a letter or digit and end in no blank. -/
theorem trim_head : Ended (name.toList ++ extrasChars extras) ∧
    trim (name.toList ++ extrasChars extras) = name.toList ++ extrasChars extras := by
  have hword := Name.blankless_of_isValid hname
  have hended : Ended (name.toList ++ extrasChars extras) := by
    by_cases hne : extras = []
    · rw [hne]
      exact (ended_word hword).2 nofun
    · rw [extrasChars_eq hne, ← List.cons_append, ← List.append_assoc]
      exact (ended_append (List.cons_ne_nil _ _)).2 (by decide)
  refine ⟨hended, ?_⟩
  have hends : Ended (extrasChars extras) := (ended_word hword).1 hended
  rw [trim_word hword (Name.ne_nil_of_isValid hname), trimEnd_eq_self_iff.2 hends]

/-- The name and the bracket as they are written are put together from the name and the extras. -/
theorem bracketed_head : Name.Bracketed (name.toList ++ extrasChars extras) name.toList
    (extras.map String.toList) := by
  have hplain := Name.without_of_isValid hname
  by_cases hne : extras = []
  · rw [hne, show extrasChars [] = [] from rfl, List.append_nil]
    exact .bare (hplain.of_subset (by decide))
  · have hextras' := isExtra_of_mem_map hextras
    have htrim : (extras.map String.toList).map trim = extras.map String.toList := by
      conv => rhs; rw [← List.map_id (extras.map String.toList)]
      exact List.map_congr_left fun e he => (hextras' e he).trimmed
    have hbracketed := @Name.Bracketed.extended name.toList [] (extras.map String.toList)
      (hplain '[' (by decide)) (ended_of_word (Name.blankless_of_isValid hname)) nofun
      (by simpa using hne) fun e he => (hextras' e he).isEntryText
    rwa [htrim, List.append_nil, ← extrasChars_eq hne] at hbracketed

/-- The name and the extras are read again, also before a blank. -/
theorem readName_head (blanks : List Char) (hblanks : ∀ c ∈ blanks, isBlank c = true) :
    readName (name.toList ++ extrasChars extras ++ blanks) = .ok (name, extras) := by
  refine readName_eq_ok_iff.2 ⟨Name.isValid_iff.1 hname, ?_⟩
  rw [trim_append_blanks hblanks, (trim_head hname).2]
  exact bracketed_head hname hextras

/-! ### Requirements from an index -/

omit hextras in
/-- A name ends where a character follows that no name has. -/
theorem takeWhile_name {cs : List Char} (hcs : ∀ c ∈ cs.head?, Name.isNameChar c = false) :
    (name.toList ++ cs).takeWhile Name.isNameChar = name.toList ∧
      (name.toList ++ cs).dropWhile Name.isNameChar = cs := by
  have hchars := (Name.of_isValid hname).1
  rw [List.takeWhile_append_of_pos hchars, List.dropWhile_append_of_pos hchars]
  cases cs with
  | nil => exact ⟨List.append_nil _, rfl⟩
  | cons c cs =>
    have hc : ¬Name.isNameChar c = true := Bool.eq_false_iff.1 (hcs c rfl)
    rw [List.takeWhile_cons_of_neg hc, List.dropWhile_cons_of_neg hc]
    exact ⟨List.append_nil _, rfl⟩

/-- The name with its extras is taken off the start of a requirement from an index. -/
theorem nameAndRest?_head {rest : List Char} (hrest : ∀ c ∈ rest.head?, Name.isNameChar c = false)
    (hopen : (trimStart rest).head? ≠ some '[') :
    nameAndRest? (name.toList ++ extrasChars extras ++ rest) =
      some (name.toList ++ extrasChars extras, trim rest) := by
  rw [List.append_assoc]
  unfold nameAndRest?
  by_cases hne : extras = []
  · have hnil : extrasChars extras = [] := by rw [hne]; rfl
    rw [hnil, List.nil_append, List.append_nil, (takeWhile_name hname hrest).1,
      (takeWhile_name hname hrest).2]
    dsimp only
    split
    next heq => rw [heq] at hopen; exact absurd rfl hopen
    next => rw [trim_trimStart]
  · have hinner : Without [']'] ('[' :: [','].intercalate (extras.map String.toList)) := by
      have hopen : Without [']'] ['['] := by decide
      refine hopen.append (Without.intercalate (fun e he => ?_) (by decide))
      exact (isExtra_of_mem_map hextras e he).plain.of_subset (by decide)
    have hextrasChars : extrasChars extras ++ rest =
        '[' :: [','].intercalate (extras.map String.toList) ++ ']' :: rest := by
      rw [extrasChars_eq hne]
      simp
    have hstop : ∀ c ∈ (extrasChars extras ++ rest).head?, Name.isNameChar c = false := by
      intro c hc
      rw [hextrasChars, List.cons_append, List.head?_cons, Option.mem_some_iff] at hc
      rw [← hc]
      rfl
    have hstart : trimStart (extrasChars extras ++ rest) = extrasChars extras ++ rest := by
      rw [hextrasChars]
      exact List.dropWhile_cons_of_neg (by decide)
    rw [(takeWhile_name hname hstop).1, (takeWhile_name hname hstop).2]
    dsimp only
    rw [hstart]
    split
    next =>
      rw [hextrasChars, cut_append (hinner ']' (by decide)), extrasChars_eq hne]
      simp
    next hnot => exact absurd hextrasChars (hnot _)

end Head

/-- What is written of a range behind a name, without the blank. -/
def Range.shown (range : Range) : List Char :=
  if range.isAny then [] else range.written.toList

theorem Origin.chars_registry (range : Range) (index : Option String) :
    (Origin.registry range index).chars = [] ∧ range.shown = [] ∨
      (Origin.registry range index).chars = ' ' :: range.shown ∧ range.isAny = false := by
  cases hany : range.isAny with
  | true =>
    rw [Range.shown, if_pos hany]
    exact Or.inl ⟨if_pos hany, rfl⟩
  | false =>
    have hnot : ¬range.isAny = true := Bool.eq_false_iff.1 hany
    rw [Range.shown, if_neg hnot]
    exact Or.inr ⟨if_neg hnot, rfl⟩

/-- A range is read again from what is shown of it. -/
theorem Range.readRange_shown {text : String} {range : Range} (h : Range.parse text = .ok range) :
    ∃ range', readRange range.shown = .ok range' ∧ (range' == range) = true := by
  cases hany : range.isAny with
  | true =>
    refine ⟨Range.any, ?_, beq_of_clauses (List.isEmpty_iff.1 hany).symm⟩
    rw [shown, if_pos hany]
    rfl
  | false =>
    obtain ⟨range', hread, hclauses⟩ := Range.readRange_written h hany
    refine ⟨range', ?_, beq_of_clauses hclauses⟩
    rwa [shown, if_neg (Bool.eq_false_iff.1 hany)]

/-- What is shown of a range is trimmed, and has no sign of a bracket, a target or a marker. -/
theorem Range.tame_shown {text : String} {range : Range} (h : Range.parse text = .ok range) :
    Tame range.shown ∧ trim range.shown = range.shown ∧
      Without ['[', ']', '(', '@', ';'] range.shown := by
  have hplain : ∀ cs : List Char, Tame cs → Without ['[', ']', '(', '@', ';'] cs :=
    fun cs hcs => hcs.without.of_subset (by decide)
  cases hany : range.isAny with
  | true =>
    rw [shown, if_pos hany]
    exact ⟨tame_nil, rfl, hplain [] tame_nil⟩
  | false =>
    obtain ⟨htame, htrim, -⟩ := tame_written h hany
    rw [shown, if_neg (Bool.eq_false_iff.1 hany)]
    exact ⟨htame, htrim, hplain _ htame⟩

/-- Behind the name and the extras, a text like a range is read as a range. -/
theorem readRegistry_tame {name : String} {extras : List String}
    (hname : Name.isValid name.toList = true) (hextras : ∀ e ∈ extras, Name.IsExtra e.toList)
    {rest : List Char} (hrest : ∀ c ∈ rest.head?, Name.isNameChar c = false)
    (htame : Range.Tame (trim rest)) (input : List Char) :
    readRegistry input (name.toList ++ extrasChars extras ++ rest) =
      (readRange (trim rest)).map fun range =>
        { Declared.plain name (Origin.registry range none) with extras } := by
  have hplain : Without ['[', ']', '('] (trim rest) := htame.without.of_subset (by decide)
  have hopen : (trimStart rest).head? ≠ some '[' := by
    intro hopen
    obtain ⟨ds, hds⟩ := List.head?_eq_some_iff.1 hopen
    refine hplain '[' (by decide) ?_
    rw [← trim_trimStart, hds, trim_cons rfl]
    exact List.mem_cons_self ..
  have hunwrap : unwrap (trim rest) = .ok (trim rest) := by
    unfold unwrap
    split
    next heq =>
      rw [heq] at hplain
      exact absurd (List.mem_cons_self ..) (hplain '(' (by decide))
    next => rfl
  have hread := readName_head hname hextras [] nofun
  rw [List.append_nil] at hread
  unfold readRegistry
  rw [nameAndRest?_head hname hextras hrest hopen]
  dsimp only
  rw [hread]
  show (if ((trim rest).contains '[' || (trim rest).contains ']') = true then _ else _) = _
  rw [if_neg, hunwrap]
  · show (readRange (trim rest) >>= fun range => _) = _
    cases readRange (trim rest) <;> rfl
  · rw [Bool.or_eq_true, List.contains_iff_mem, List.contains_iff_mem, not_or]
    exact ⟨hplain '[' (by decide), hplain ']' (by decide)⟩

/-- A requirement from an index is read again. -/
theorem readRegistry_head {name text : String} {extras : List String} {range : Range}
    (hname : Name.isValid name.toList = true) (hextras : ∀ e ∈ extras, Name.IsExtra e.toList)
    (hrange : Range.parse text = .ok range) (input : List Char) :
    ∃ range', readRegistry input
        (name.toList ++ extrasChars extras ++ (Origin.registry range none).chars) =
        .ok { Declared.plain name (Origin.registry range' none) with extras } ∧
      (range' == range) = true := by
  obtain ⟨range', hread, hsame⟩ := Range.readRange_shown hrange
  obtain ⟨htame, htrim, -⟩ := Range.tame_shown hrange
  have hrest : Parted (Origin.registry range none).chars ∧
      trim (Origin.registry range none).chars = range.shown := by
    rcases Origin.chars_registry range none with ⟨hchars, hnil⟩ | ⟨hchars, -⟩
    · rw [hchars, hnil]
      exact ⟨nofun, rfl⟩
    · rw [hchars, trim_cons_blank rfl, htrim]
      exact ⟨parted_cons rfl _, rfl⟩
  refine ⟨range', ?_, hsame⟩
  rw [readRegistry_tame hname hextras hrest.1.not_isNameChar (by rwa [hrest.2]), hrest.2, hread]
  rfl

/-! ### The lead -/

/-- A requirement as it is written, up to its marker. -/
def Requirement.lead (r : Requirement) : List Char :=
  r.head ++ r.subject.chars

/-- The lead starts with a name, so with no blank. -/
theorem Requirement.trim_lead {r : Requirement} (h : r.Readable) : trim r.lead = trimEnd r.lead := by
  have hword := Name.blankless_of_isValid h.name
  rw [lead, Declared.head, List.append_assoc, trim_word hword (Name.ne_nil_of_isValid h.name),
    trimEnd_word hword]

theorem Origin.target_ne_nil {origin : Origin} (h : origin.Readable)
    (hindex : ∀ range index, origin ≠ .registry range index) : origin.target ≠ [] := by
  match origin, h, hindex with
  | .registry range index, _, h => exact absurd rfl (h range index)
  | .repository url none, _, _ => exact List.append_ne_nil_of_left_ne_nil (by decide) _
  | .repository url (some r), _, _ => exact List.append_ne_nil_of_right_ne_nil _ (List.cons_ne_nil _ _)
  | .directory path develop link, ⟨_, hpath⟩, _ =>
    obtain ⟨c, ds, hcons, -⟩ := exists_cons_of_startsWithAny hpath
    exact List.append_ne_nil_of_left_ne_nil (by rw [hcons]; exact List.cons_ne_nil _ _) _
  | .archive url, ⟨_, hscheme, _⟩, _ =>
    obtain ⟨c, w, rest, hcons, -⟩ := hasScheme_iff.1 hscheme
    show url.toList ≠ []
    rw [hcons]
    exact List.cons_ne_nil _ _

/-- A lead with a target is read again, up to the blanks that the target ends in. -/
theorem Requirement.readHead_target {r : Requirement} (h : r.Readable) (input : List Char)
    (hindex : ∀ range index, r.subject ≠ .registry range index) :
    ∃ origin, readHead input (trim r.lead) =
        .ok { Declared.plain r.name origin with extras := r.extras } ∧
      ((origin == r.subject) = true ↔ Ended r.subject.chars) := by
  obtain ⟨origin, hread, hsame⟩ := Origin.ofTarget_target h.origin hindex
  have hlead : trim r.lead = r.head ++ [' '] ++ '@' :: trimEnd (' ' :: r.subject.target) := by
    have hsign : trimEnd ('@' :: ' ' :: r.subject.target) = '@' :: trimEnd (' ' :: r.subject.target) :=
      trimEnd_cons rfl _
    have hsplit : r.lead = r.head ++ [' '] ++ '@' :: ' ' :: r.subject.target := by
      rw [lead, Origin.chars_eq hindex, List.append_assoc]
      rfl
    rw [trim_lead h, hsplit, trimEnd_append _ (by rw [hsign]; exact List.cons_ne_nil _ _), hsign]
  have htrim : trim (trimEnd (' ' :: r.subject.target)) = trim r.subject.target := by
    rw [trim_trimEnd]
    exact trim_cons_blank rfl _
  refine ⟨origin, ?_, ?_⟩
  · have hplain : '@' ∉ r.head ++ [' '] := by
      rw [List.mem_append, not_or]
      exact ⟨without_head h.name h.extras '@' (by decide), by decide⟩
    unfold readHead
    rw [hlead, cut_append hplain]
    dsimp only
    unfold readTarget
    have hname : readName (r.head ++ [' ']) = .ok (r.name, r.extras) :=
      readName_head h.name h.extras [' '] (by decide)
    rw [hname]
    show (((Origin.ofTarget (trim (trimEnd (' ' :: r.subject.target)))).mapError _) >>= fun _ => _) = _
    rw [htrim, hread]
    rfl
  · rw [hsame, Origin.chars_eq hindex, ended_append (Origin.target_ne_nil h.origin hindex)]

/-- A lead from an index is read again. -/
theorem Requirement.readHead_registry {r : Requirement} (h : r.Readable) (input : List Char)
    {range : Range} {index : Option String} (hindex : r.subject = .registry range index) :
    ∃ origin, readHead input (trim r.lead) =
        .ok { Declared.plain r.name origin with extras := r.extras } ∧
      (origin == r.subject) = true ∧ Ended r.subject.chars := by
  have horigin := h.origin
  rw [hindex] at horigin
  obtain ⟨rfl, text, hrange⟩ := horigin
  obtain ⟨range', hread, hsame⟩ := readRegistry_head h.name h.extras hrange input
  obtain ⟨-, htrim, hplain⟩ := Range.tame_shown hrange
  have hended : Ended r.subject.chars ∧ '@' ∉ r.subject.chars := by
    rw [hindex]
    rcases Origin.chars_registry range none with ⟨hchars, -⟩ | ⟨hchars, hany⟩
    · rw [hchars]
      exact ⟨nofun, List.not_mem_nil⟩
    · have hne : range.shown ≠ [] := by
        rw [Range.shown, if_neg (Bool.eq_false_iff.1 hany)]
        exact (Range.tame_written hrange hany).2.2
      have hshown : Ended range.shown := by
        rw [← htrim]
        exact ended_trim _
      rw [hchars, ← List.singleton_append, ended_append hne, List.mem_append, not_or]
      exact ⟨hshown, by decide, hplain '@' (by decide)⟩
  have hlead : trim r.lead = r.lead := by
    rw [trim_lead h, trimEnd_eq_self_iff, lead]
    by_cases hnil : r.subject.chars = []
    · rw [hnil, List.append_nil]
      exact (trim_head h.name).1
    · exact (ended_append hnil).2 hended.1
  have hcut : cut '@' r.lead = none := by
    rw [cut_eq_none, lead, List.mem_append, not_or]
    exact ⟨without_head h.name h.extras '@' (by decide), hended.2⟩
  refine ⟨.registry range' none, ?_, ?_, hended.1⟩
  · unfold readHead
    rw [hlead, hcut]
    dsimp only
    rw [lead, hindex]
    exact hread
  · rw [hindex]
    show (range' == range && true) = true
    rw [hsame, Bool.and_true]

/-- The lead is read again, if and only if the origin does not end in a blank. -/
theorem Requirement.readHead_lead {r : Requirement} (h : r.Readable) (input : List Char) :
    ∃ origin, readHead input (trim r.lead) =
        .ok { Declared.plain r.name origin with extras := r.extras } ∧
      ((origin == r.subject) = true ↔ Ended r.subject.chars) := by
  rcases r.subject.registry_or with ⟨range, index, hsubject⟩ | hindex
  · obtain ⟨origin, hread, hsame, hended⟩ := readHead_registry h input hsubject
    exact ⟨origin, hread, iff_of_true hsame hended⟩
  · exact readHead_target h input hindex

end Requisite
