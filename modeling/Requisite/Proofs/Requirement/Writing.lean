import Requisite.Proofs.Requirement.Head

/-!
# Reading a written requirement again

A written requirement falls into a lead, a marker behind `;` and a blank, and the hashes as options,
each behind a blank.  Reading it again takes it apart at the same places, but for three things.  A
marker that starts like an option becomes one behind the blank; a hash ends at its first blank; and
the blanks that the origin ends in are lost.

* `Requirement.Reprints` — a requirement without these three things;
* **`Requirement.split_chars`** — the options of a written requirement;
* **`Requirement.parse_toString_iff`** — a requirement that was read is read again if and only if it
  has none of the three;
* **`Requirement.parse_toString_wellFormed`** — a requirement with well-formed parts is read again.
-/

namespace Requisite

open Text Options

/-! ### The lead has neither options nor markers -/

namespace Origin

theorem head?_target {origin : Origin} (h : origin.Readable) : origin.target.head? ≠ some '-' := by
  match origin, h with
  | .registry range index, _ => exact nofun
  | .repository url none, _ =>
    intro hhead
    have hg : ("git+".toList ++ url.toList).head? = some 'g' := rfl
    exact absurd (hg.symm.trans hhead) (by decide)
  | .repository url (some r), _ =>
    intro hhead
    have hg : (target (.repository url (some r))).head? = some 'g' := rfl
    exact absurd (hg.symm.trans hhead) (by decide)
  | .directory path develop link, ⟨_, hpath⟩ =>
    obtain ⟨c, ds, hcons, hc⟩ := exists_cons_of_startsWithAny hpath
    show (path.text.toList ++ _).head? ≠ some '-'
    rw [hcons, List.cons_append, List.head?_cons]
    rintro ⟨⟩
    rcases hc with hc | hc <;> nomatch hc
  | .archive url, ⟨_, hscheme, _⟩ =>
    obtain ⟨c, w, rest, hcons, hc, -⟩ := hasScheme_iff.1 hscheme
    show url.toList.head? ≠ some '-'
    rw [hcons, List.head?_cons]
    rintro ⟨⟩
    nomatch hc

theorem blankless_key (r : Reference) : Blankless r.key.toList := by
  cases r with
  | rev v => show Blankless "rev".toList; decide
  | branch v => show Blankless "branch".toList; decide
  | tag v => show Blankless "tag".toList; decide

theorem free_flagChars {cs : List Char} (h : Free cs) (hplain : ';' ∉ cs) (develop link : Bool) :
    Free (cs ++ flagChars develop link) ∧ ';' ∉ cs ++ flagChars develop link := by
  rcases flagChars_eq develop link with ⟨hnil, -⟩ | ⟨fragment, hchars, hword, hsign, -⟩
  · rw [hnil, List.append_nil]
    exact ⟨h, hplain⟩
  · rw [hchars, List.mem_append, List.mem_cons, not_or, not_or]
    exact ⟨h.append_cons (isSign_of_mem '#' (by decide)) (free_of_word hword), hplain, by decide, hsign⟩

/-- No option and no marker starts within a target. -/
theorem free_target {origin : Origin} (h : origin.Readable) :
    Free origin.target ∧ ';' ∉ origin.target := by
  have hgit : Blankless "git+".toList := by decide
  cases origin with
  | registry range index => exact ⟨free_nil, List.not_mem_nil⟩
  | repository url reference =>
    obtain ⟨hplain, hvalues⟩ := h
    cases reference with
    | none =>
      refine ⟨hplain.free.of_word hgit, ?_⟩
      rw [target, List.mem_append, not_or]
      exact ⟨by decide, hplain.plain ';' (by decide)⟩
    | some r =>
      have hvalue := hvalues r rfl
      have hsign : isBlank '=' = true → option? r.value.toList = none :=
        fun hblank => absurd hblank (by decide)
      have hselector : Free (r.key.toList ++ '=' :: r.value.toList) :=
        Free.of_word (blankless_key r) ⟨hsign, hvalue.free⟩
      refine ⟨(hplain.free.of_word hgit).append_cons (isSign_of_mem '#' (by decide)) hselector, ?_⟩
      simp only [target, List.mem_append, List.mem_cons, not_or]
      exact ⟨⟨by decide, hplain.plain ';' (by decide)⟩, by decide, without_key r ';' (by decide),
        by decide, hvalue.plain ';' (by decide)⟩
  | directory path develop link =>
    obtain ⟨hplain, -⟩ := h
    exact free_flagChars hplain.free (hplain.plain ';' (by decide)) develop link
  | archive url =>
    obtain ⟨hplain, -, -⟩ := h
    exact ⟨hplain.free, hplain.plain ';' (by decide)⟩

/-- No option and no marker starts within an origin as it is written behind a name. -/
theorem free_chars {origin : Origin} (h : origin.Readable) :
    Free origin.chars ∧ ';' ∉ origin.chars ∧ Parted origin.chars := by
  rcases registry_or origin with ⟨range, index, rfl⟩ | hindex
  · obtain ⟨-, text, hrange⟩ := h
    obtain ⟨htame, -, hplain⟩ := Range.tame_shown hrange
    rcases chars_registry range index with ⟨hchars, -⟩ | ⟨hchars, -⟩
    · rw [hchars]
      exact ⟨free_nil, List.not_mem_nil, nofun⟩
    · rw [hchars, List.mem_cons, not_or]
      exact ⟨htame.free, ⟨by decide, hplain ';' (by decide)⟩, parted_cons rfl _⟩
  · obtain ⟨hfree, hplain⟩ := free_target h
    rw [chars_eq hindex, List.mem_append, not_or]
    refine ⟨⟨fun _ => rfl, nofun, fun _ => ?_, hfree⟩, ⟨by decide, hplain⟩, parted_cons rfl _⟩
    exact option?_eq_none_of_head (head?_target h)

end Origin

namespace Requirement

theorem free_lead {r : Requirement} (h : r.Readable) : Free r.lead ∧ ';' ∉ r.lead := by
  obtain ⟨hfree, hplain, hparted⟩ := Origin.free_chars h.origin
  refine ⟨(free_head h.name h.extras).append_parted hfree hparted, ?_⟩
  rw [lead, List.mem_append, not_or]
  exact ⟨without_head h.name h.extras ';' (by decide), hplain⟩

/-! ### The options of a written requirement -/

/-- The hashes as they are written. -/
def hashChars (hs : List String) : List Char :=
  hs.flatMap fun h => " --hash=".toList ++ h.toList

theorem parted_hashChars (hs : List String) : Parted (hashChars hs) := by
  cases hs with
  | nil => nofun
  | cons h hs => exact parted_cons rfl _

/-- A written hash is an option; what stands behind a blank in it is left. -/
theorem split_hash {h : List Char} (hfree : Free h) :
    split (" --hash=".toList ++ h) =
      ([("hash".toList, h.takeWhile fun c => !isBlank c)], h.dropWhile fun c => !isBlank c) := by
  have hparts := List.takeWhile_append_dropWhile (p := fun c => !isBlank c) (l := h)
  have hoption : option? ("--hash=".toList ++ h) =
      some (("hash".toList, h.takeWhile fun c => !isBlank c), h.dropWhile fun c => !isBlank c) := by
    refine option?_eq_some.2 ⟨?_, by decide, by decide, fun c hc => ?_, parted_dropWhile h⟩
    · rw [hparts]
      rfl
    · simpa using List.mem_takeWhile_imp hc
  have hrest : Free (h.dropWhile fun c => !isBlank c) := by
    rw [← hparts] at hfree
    exact hfree.of_append.2
  show split (' ' :: ("--hash=".toList ++ h)) = _
  rw [split_of_option rfl hoption, split_of_free hrest]

theorem split_hashChars {hs : List String} (h : ∀ h ∈ hs, Free h.toList) :
    split (hashChars hs) =
      (hs.map fun h => ("hash".toList, h.toList.takeWhile fun c => !isBlank c),
        hs.flatMap fun h => h.toList.dropWhile fun c => !isBlank c) := by
  induction hs with
  | nil =>
    show split [] = _
    rw [split]
    rfl
  | cons hash hs ih =>
    obtain ⟨hhash, h⟩ := List.forall_mem_cons.1 h
    show split (" --hash=".toList ++ hash.toList ++ hashChars hs) = _
    rw [split_append _ (parted_hashChars hs), split_hash hhash, ih h]
    rfl

/-- The marker as it is written behind its `;`. -/
def markerChars : Option String → List Char
  | some m => ' ' :: m.toList
  | none => []

theorem parted_markerChars (markers : Option String) : Parted (markerChars markers) := by
  cases markers with
  | none => nofun
  | some m => exact parted_cons rfl _

/-- A marker is written without options if and only if it does not start with one. -/
theorem split_markerChars {markers : Option String} (h : ∀ m ∈ markers, Free m.toList) :
    (split (markerChars markers)).1 = [] ↔ ∀ m ∈ markers, option? m.toList = none := by
  cases markers with
  | none =>
    rw [markerChars, split]
    exact iff_of_true rfl fun m hm => absurd hm (Option.not_mem_none m)
  | some m =>
    have hblank : isBlank ' ' = true := rfl
    constructor
    · rintro hsplit m' hm
      obtain rfl := Option.mem_some_iff.1 hm
      cases hoption : option? m.toList with
      | none => rfl
      | some found =>
        rw [markerChars, split_of_option hblank hoption] at hsplit
        cases hsplit
    · intro hm
      have hfree : Free (' ' :: m.toList) := ⟨fun _ => hm m rfl, h m rfl⟩
      rw [markerChars, split_of_free hfree]

/-- The lead as it is written before a marker. -/
def leadChars (r : Requirement) : List Char :=
  r.lead ++ if r.markers.isSome then [';'] else []

theorem chars_eq (r : Requirement) :
    r.chars = leadChars r ++ (markerChars r.markers ++ hashChars r.hashes) := by
  show r.lead ++ ((match r.markers with
    | some m => ';' :: ' ' :: m.toList
    | none => []) ++ hashChars r.hashes) = _
  rw [leadChars, List.append_assoc]
  cases r.markers <;> rfl

/-- The options of a written requirement, and what is left of it. -/
theorem split_chars {r : Requirement} (h : r.Readable) :
    split r.chars =
      ((split (markerChars r.markers)).1 ++
          r.hashes.map fun h => ("hash".toList, h.toList.takeWhile fun c => !isBlank c),
        leadChars r ++ ((split (markerChars r.markers)).2 ++
          r.hashes.flatMap fun h => h.toList.dropWhile fun c => !isBlank c)) := by
  have hlead : Free (leadChars r) := by
    unfold leadChars
    split
    next => exact (free_lead h).1.append_cons (isSign_of_mem ';' (by decide)) free_nil
    next => rw [List.append_nil]; exact (free_lead h).1
  rw [chars_eq, split_append _ ((parted_markerChars _).append (parted_hashChars _)),
    split_append _ (parted_hashChars _), split_of_free hlead,
    split_hashChars fun hash hhash => (h.hashes hash hhash).2]
  rfl

/-! ### Reading a written requirement -/

/-- Blanks at the end of a text belong neither to the head nor to the marker. -/
theorem headAndMarkers_append {b : List Char} (hb : ∀ c ∈ b, isBlank c = true) (text : List Char) :
    headAndMarkers (text ++ b) = headAndMarkers text := by
  have hsign : ';' ∉ b := fun hc => nomatch hb ';' hc
  unfold headAndMarkers
  cases hcut : cut ';' text with
  | none =>
    have hplain : ';' ∉ text ++ b := by
      rw [List.mem_append, not_or]
      exact ⟨cut_eq_none.1 hcut, hsign⟩
    rw [cut_eq_none.2 hplain]
    dsimp only
    rw [trim_append_blanks hb]
  | some parts =>
    obtain ⟨head, markers⟩ := parts
    obtain ⟨rfl, hplain⟩ := cut_eq_some.1 hcut
    rw [List.append_assoc, List.cons_append, cut_append hplain]
    dsimp only
    rw [readMarkers, trim_append_blanks hb, readMarkers]

theorem free_of_blanks {b : List Char} (hb : ∀ c ∈ b, isBlank c = true) : Free b := by
  induction b with
  | nil => trivial
  | cons c b ih =>
    obtain ⟨hc, hb⟩ := List.forall_mem_cons.1 hb
    refine ⟨fun _ => option?_eq_none_of_head fun hhead => ?_, ih hb⟩
    have hhyphen := hb '-' (List.mem_of_mem_head? hhead)
    nomatch hhyphen

/-- Trimming a text at its end changes neither its options nor its head and marker. -/
theorem split_trimEnd (cs : List Char) : (split (trimEnd cs)).1 = (split cs).1 ∧
    headAndMarkers (split (trimEnd cs)).2 = headAndMarkers (split cs).2 := by
  obtain ⟨b, hb, hblank⟩ := exists_blanks_trimEnd cs
  have hparted : Parted b := fun c hc => hblank c (List.mem_of_mem_head? hc)
  have hsplit := split_append (trimEnd cs) hparted
  rw [← hb, split_of_free (free_of_blanks hblank)] at hsplit
  rw [hsplit, List.append_nil, headAndMarkers_append hblank]
  exact ⟨rfl, rfl⟩

/-- A sign or a blank comes first that no name has, if anything does. -/
def BehindName (cs : List Char) : Prop :=
  ∀ c ∈ cs.head?, c = '[' ∨ c = ';' ∨ isBlank c = true

theorem BehindName.append {cs ds : List Char} (hcs : BehindName cs) (hds : BehindName ds) :
    BehindName (cs ++ ds) := by
  cases cs with
  | nil => exact hds
  | cons c cs => exact hcs

theorem behindName_of_parted {cs : List Char} (h : Parted cs) : BehindName cs :=
  fun c hc => Or.inr (Or.inr (h c hc))

/-- A written requirement starts with its name. -/
theorem exists_chars_eq {r : Requirement} (h : r.Readable) :
    ∃ rest, r.chars = r.name.toList ++ rest ∧ BehindName rest := by
  have hextras : BehindName (extrasChars r.extras) := by
    by_cases hne : r.extras = []
    · rw [hne]
      exact nofun
    · rw [extrasChars_eq hne]
      exact fun c hc => Or.inl (Option.mem_some_iff.1 hc).symm
  have hsemicolon : BehindName (if r.markers.isSome then [';'] else []) := by
    split
    next => exact fun c hc => Or.inr (Or.inl (Option.mem_some_iff.1 hc).symm)
    next => exact nofun
  have hend := (parted_markerChars r.markers).append (parted_hashChars r.hashes)
  refine ⟨extrasChars r.extras ++ (r.subject.chars ++ ((if r.markers.isSome then [';'] else []) ++
    (markerChars r.markers ++ hashChars r.hashes))), ?_, ?_⟩
  · rw [chars_eq, leadChars, lead, Declared.head]
    simp only [List.append_assoc]
  · exact hextras.append ((behindName_of_parted (Origin.free_chars h.origin).2.2).append
      (hsemicolon.append (behindName_of_parted hend)))

theorem trim_chars {r : Requirement} (h : r.Readable) : trim r.chars = trimEnd r.chars := by
  have hword := Name.blankless_of_isValid h.name
  obtain ⟨rest, hchars, -⟩ := exists_chars_eq h
  rw [hchars, trim_word hword (Name.ne_nil_of_isValid h.name), trimEnd_word hword]

/-- A text that starts with a name is not taken for a target, unless it goes on like one. -/
theorem not_startsWithAny_of_head? {name : String} (hname : Name.isValid name.toList = true)
    {rest : List Char} (hstop : ∀ c ∈ rest.head?, Name.isNameChar c = false)
    (hsign : ∀ c ∈ rest.head?, c ∉ ['+', ':', '/']) :
    startsWithAny targetStarts (name.toList ++ rest) = false := by
  have hstarts : ∀ s ∈ targetStarts,
      (s.toList.dropWhile Name.isNameChar).head? ∈ ['+', ':', '/'].map some := by
    decide
  rw [Bool.eq_false_iff]
  intro htarget
  obtain ⟨s, hs, tail, htail⟩ := startsWithAny_iff.1 htarget
  obtain ⟨c, hc, hhead⟩ := List.mem_map.1 (hstarts s hs)
  obtain ⟨ds, hds⟩ := List.head?_eq_some_iff.1 hhead.symm
  -- Behind the name stands what stands behind the name characters of the target's beginning.
  have hdrop := (takeWhile_name hname hstop).2
  rw [htail, List.dropWhile_append, if_neg (by rw [hds]; exact Bool.false_ne_true), hds] at hdrop
  exact hsign c (by rw [← hdrop]; rfl) hc

theorem not_startsWithAny_name {name : String} (hname : Name.isValid name.toList = true)
    {rest : List Char} (hrest : BehindName rest) :
    startsWithAny targetStarts (name.toList ++ rest) = false := by
  apply not_startsWithAny_of_head? hname
  · intro c hc
    rw [Bool.eq_false_iff]
    intro hchar
    rcases hrest c hc with rfl | rfl | hblank
    · nomatch hchar
    · nomatch hchar
    · rw [Name.isBlank_of_isNameChar hchar] at hblank
      nomatch hblank
  · intro c hc hmem
    simp only [List.mem_cons, List.not_mem_nil, or_false] at hmem
    rcases hmem with rfl | rfl | rfl <;> rcases hrest _ hc with h | h | h <;> nomatch h

theorem BehindName.trimEnd {cs : List Char} (h : BehindName cs) : BehindName (trimEnd cs) := by
  obtain ⟨b, hb, -⟩ := exists_blanks_trimEnd cs
  intro c hc
  refine h c ?_
  obtain ⟨ds, hds⟩ := List.head?_eq_some_iff.1 hc
  rw [hb, hds]
  rfl

/-- A written requirement is not taken for a target. -/
theorem not_startsWithAny_chars {r : Requirement} (h : r.Readable) :
    startsWithAny targetStarts (trim r.chars) = false := by
  obtain ⟨rest, hchars, hrest⟩ := exists_chars_eq h
  rw [trim_chars h, hchars, trimEnd_word (Name.blankless_of_isValid h.name)]
  exact not_startsWithAny_name h.name hrest.trimEnd

/-- A written requirement is read from its options, its head and its marker. -/
theorem parse_toString_eq {r : Requirement} (h : r.Readable) :
    Requirement.parse (toString r) = (do
      let hashes ←
        (Options.hashes (split r.chars).1).mapError (.invalid (String.ofList (trim r.chars)))
      let d ← readHead (trim r.chars) (headAndMarkers (split r.chars).2).1
      .ok { d with
        markers := (headAndMarkers (split r.chars).2).2, hashes := hashes ++ d.hashes }) := by
  obtain ⟨hoptions, hparts⟩ := split_trimEnd r.chars
  show Requirement.read (String.ofList r.chars).toList = _
  rw [String.toList_ofList, read_eq, if_neg (Bool.eq_false_iff.1 (not_startsWithAny_chars h)),
    trim_chars h, hoptions, hparts]

/-- What is written without the hashes falls into the lead and the marker. -/
theorem headAndMarkers_chars {r : Requirement} (h : r.Readable) :
    headAndMarkers (leadChars r ++ markerChars r.markers) = (trim r.lead, r.markers) := by
  have hplain := (free_lead h).2
  cases hmarkers : r.markers with
  | none =>
    have hlead : leadChars r ++ markerChars none = r.lead := by
      rw [leadChars, hmarkers]
      exact (List.append_nil _).trans (List.append_nil _)
    rw [hlead, headAndMarkers, cut_eq_none.2 hplain]
  | some m =>
    obtain ⟨hne, htrim, -⟩ := h.markers m hmarkers
    have hlead : leadChars r ++ markerChars (some m) = r.lead ++ ';' :: ' ' :: m.toList := by
      rw [leadChars, hmarkers]
      exact List.append_assoc _ [';'] _
    have hread : readMarkers (' ' :: m.toList) = some m := by
      rw [readMarkers, trim_cons_blank rfl, htrim, String.ofList_toList,
        if_neg (by simpa using hne)]
    rw [hlead, headAndMarkers, cut_append hplain]
    dsimp only
    rw [hread]

/-- The requirements whose parts survive being written: the origin ends in no blank, the marker does
not start like an option, and no blank stands in a hash. -/
structure Reprints (r : Requirement) : Prop where
  origin : Ended r.subject.chars
  markers : ∀ m ∈ r.markers, option? m.toList = none
  hashes : ∀ h ∈ r.hashes, Blankless h.toList

/-- If marker and hashes survive being written, then only the origin can differ, and it does where it
ends in a blank. -/
theorem parse_toString_of_options {r : Requirement} (h : r.Readable)
    (hmarkers : ∀ m ∈ r.markers, option? m.toList = none)
    (hhashes : ∀ h ∈ r.hashes, Blankless h.toList) :
    ∃ origin, Requirement.parse (toString r) = .ok { r with subject := origin } ∧
      ((origin == r.subject) = true ↔ Ended r.subject.chars) := by
  have hfree : ∀ m ∈ r.markers, Free m.toList := fun m hm => (h.markers m hm).2.2
  have hmarker := split_of_fst_eq_nil ((split_markerChars hfree).2 hmarkers)
  have hwords : ∀ hash ∈ r.hashes, ∀ c ∈ hash.toList, (!isBlank c) = true :=
    fun hash hhash c hc => by rw [hhashes hash hhash c hc]; rfl
  have hoptions : (split r.chars).1 = r.hashes.map fun h => ("hash".toList, h.toList) := by
    rw [split_chars h, hmarker, List.nil_append]
    exact List.map_congr_left fun hash hhash =>
      congrArg _ (List.takeWhile_eq_self_iff.2 (hwords hash hhash))
  have htext : (split r.chars).2 = leadChars r ++ markerChars r.markers := by
    have hnil : (r.hashes.flatMap fun h => h.toList.dropWhile fun c => !isBlank c) = [] :=
      List.flatMap_eq_nil_iff.2 fun hash hhash =>
        List.dropWhile_eq_nil_iff.2 (hwords hash hhash)
    rw [split_chars h, hmarker, hnil, List.append_nil]
  obtain ⟨origin, hread, hsame⟩ := readHead_lead h (trim r.chars)
  refine ⟨origin, ?_, hsame⟩
  rw [parse_toString_eq h, hoptions, htext, headAndMarkers_chars h,
    hashes_map fun hash hhash => (h.hashes hash hhash).1]
  show (readHead (trim r.chars) (trim r.lead) >>= fun d => _) = _
  rw [hread]
  show Except.ok { (Declared.plain r.name origin) with
    extras := r.extras
    markers := r.markers
    hashes := r.hashes ++ [] } = Except.ok { r with subject := origin }
  rw [List.append_nil, h.python]
  rfl

theorem beq_iff {r r' : Requirement} : (r' == r) = true ↔ r'.name = r.name ∧ r'.extras = r.extras ∧
    (r'.python == r.python) = true ∧ r'.markers = r.markers ∧ r'.hashes = r.hashes ∧
      (r'.subject == r.subject) = true := by
  show (r'.name == r.name && (r'.extras == r.extras && (r'.python == r.python &&
    (r'.markers == r.markers && (r'.hashes == r.hashes && r'.subject == r.subject))))) = true ↔ _
  simp only [Bool.and_eq_true, beq_iff_eq]

/-- A written requirement is read again as an equal one only if its parts survive. -/
theorem reprints_of_parse {r r' : Requirement} (h : r.Readable)
    (hparse : Requirement.parse (toString r) = .ok r') (hequal : (r' == r) = true) : Reprints r := by
  obtain ⟨-, -, -, -, hhashes, hsubject⟩ := beq_iff.1 hequal
  have hread := hparse
  rw [parse_toString_eq h] at hread
  obtain ⟨hs, hoptions, hread⟩ := Outcome.of_bind hread
  obtain ⟨d, -, hread⟩ := Outcome.of_bind hread
  obtain rfl := Except.ok.inj hread
  obtain ⟨hoptions, -⟩ := of_hashes (Outcome.of_mapError hoptions)
  rw [split_chars h] at hoptions
  -- The options are the one of the marker, if it starts with one, and one for each hash; there can be
  -- no more of them than hashes, so the marker brings none.
  have hlength := congrArg List.length hoptions
  have hlength' := congrArg List.length hhashes
  simp only [List.length_append, List.length_map] at hlength hlength'
  have hmarker : (split (markerChars r.markers)).1 = [] := List.length_eq_zero_iff.1 (by omega)
  have hrest : d.hashes = [] := List.length_eq_zero_iff.1 (by omega)
  have hhashes : hs ++ d.hashes = r.hashes := hhashes
  rw [hrest, List.append_nil] at hhashes
  have hfree : ∀ m ∈ r.markers, Free m.toList := fun m hm => (h.markers m hm).2.2
  have hmarkers := (split_markerChars hfree).1 hmarker
  -- An option has the first word of its hash, which is the whole hash.
  have hwords : ∀ hash ∈ r.hashes, Blankless hash.toList := by
    rw [hmarker, List.nil_append, hhashes] at hoptions
    intro hash hhash c hc
    have hword := List.map_inj_left.1 hoptions hash hhash
    have htake := congrArg Prod.snd hword
    simpa using List.takeWhile_eq_self_iff.1 htake c hc
  obtain ⟨origin, hagain, hsame⟩ := parse_toString_of_options h hmarkers hwords
  obtain rfl := congrArg Declared.subject (Except.ok.inj (hagain.symm.trans hparse))
  exact ⟨hsame.1 hsubject, hmarkers, hwords⟩

theorem parse_of_reprints {r : Requirement} (h : r.Readable) (hreprints : Reprints r) :
    ∃ r', Requirement.parse (toString r) = .ok r' ∧ (r' == r) = true := by
  obtain ⟨origin, hparse, hsame⟩ := parse_toString_of_options h hreprints.markers hreprints.hashes
  refine ⟨_, hparse, beq_iff.2 ⟨rfl, rfl, ?_, rfl, rfl, hsame.2 hreprints.origin⟩⟩
  rw [h.python]
  rfl

/-- A requirement that was read is written so that it is read again, as an equal one, if and only if
its origin ends in no blank, its marker does not start like an option and no blank stands in a
hash. -/
theorem parse_toString_iff (text : String) (r : Requirement) (h : Requirement.parse text = .ok r) :
    (∃ r', Requirement.parse (toString r) = .ok r' ∧ (r' == r) = true) ↔ Reprints r := by
  have hreadable := readable_of_parse h
  constructor
  · rintro ⟨r', hparse, hequal⟩
    exact reprints_of_parse hreadable hparse hequal
  · exact parse_of_reprints hreadable

/-- A requirement with a hash that was given with the URL and has a blank in it. -/
def brokenHash : Requirement :=
  { (Declared.plain "kek" (.archive "https://e.com/x.zip")) with hashes := ["sha256:a b"] }

theorem parse_toString_brokenHash :
    Requirement.parse "kek @ https://e.com/x.zip#sha256=a b" = .ok brokenHash ∧
      ¬∃ r', Requirement.parse (toString brokenHash) = .ok r' ∧ (r' == brokenHash) = true := by
  have hparse : Requirement.parse "kek @ https://e.com/x.zip#sha256=a b" = .ok brokenHash := by
    have hhead : readHead "kek @ https://e.com/x.zip#sha256=a b".toList
        "kek @ https://e.com/x.zip#sha256=a b".toList = .ok brokenHash := rfl
    exact read_of_free (by decide +kernel) (by decide +kernel) (free_of_hyphens (by decide +kernel))
      rfl hhead
  refine ⟨hparse, fun hread => ?_⟩
  have hreprints := (parse_toString_iff _ brokenHash hparse).1 hread
  nomatch hreprints.hashes "sha256:a b" (by decide) ' ' (by decide)

/-- A requirement with a marker that looks like an option. -/
def optionMarker : Requirement :=
  { (Declared.plain "kek" (.registry Range.any none)) with markers := some "--hash=abc" }

/-- Not every requirement that was read is read again: behind the blank that it is written with, the
marker becomes an option. -/
theorem not_parse_toString : ¬∀ (text : String) (r : Requirement), Requirement.parse text = .ok r →
    ∃ r', Requirement.parse (toString r) = .ok r' ∧ (r' == r) = true := by
  intro h
  have hparse : Requirement.parse "kek;--hash=abc" = .ok optionMarker := by
    have hhead : readHead "kek;--hash=abc".toList "kek".toList =
        .ok { optionMarker with markers := none } := rfl
    exact read_of_free (by decide +kernel) (by decide +kernel) (free_of_word (by decide +kernel))
      rfl hhead
  obtain ⟨r', hread, hequal⟩ := h _ _ hparse
  have hreprints := reprints_of_parse (readable_of_parse hparse) hread hequal
  have hoption : option? "--hash=abc".toList = none := hreprints.markers _ rfl
  exact absurd hoption (by decide +kernel)

end Requirement

/-! ### Requirements with well-formed parts -/

/-- An origin whose location, and whose commit, fit their places. -/
def Origin.WellFormed : Origin → Prop
  | .registry range index => index = none ∧ ∃ text, Range.parse text = .ok range
  | .repository url reference =>
    (Blankless url.toList ∧ Without ['#', ';'] url.toList) ∧
      ∀ r ∈ reference, Blankless r.value.toList ∧ Without ['&', ';'] r.value.toList
  | .directory path _ _ =>
    (Blankless path.text.toList ∧ Without ['#', ';'] path.text.toList) ∧
      startsWithAny pathStarts path.text.toList = true
  | .archive url =>
    (Blankless url.toList ∧ Without ['#', ';'] url.toList) ∧
      hasScheme url.toList = true ∧ after? "git+" url.toList = none

/-- A target whose parts have no blanks has none. -/
theorem Origin.WellFormed.blankless_target {origin : Origin} (h : origin.WellFormed) :
    Blankless origin.target := by
  have hgit : Blankless "git+".toList := by decide
  match origin, h with
  | .registry range index, _ => exact nofun
  | .repository url none, ⟨⟨hurl, _⟩, _⟩ => exact hgit.append hurl
  | .repository url (some r), ⟨⟨hurl, _⟩, hreference⟩ =>
    have hsigns : Blankless ['#'] ∧ Blankless ['='] := by decide
    exact (hgit.append hurl).append
      (hsigns.1.append ((blankless_key r).append (hsigns.2.append (hreference r rfl).1)))
  | .directory path develop link, ⟨⟨hpath, _⟩, _⟩ =>
    refine hpath.append ?_
    rcases flagChars_eq develop link with ⟨hnil, -⟩ | ⟨fragment, hchars, hword, -⟩
    · rw [hnil]
      exact nofun
    · rw [hchars]
      exact List.forall_mem_cons.2 ⟨rfl, hword⟩
  | .archive url, ⟨⟨hurl, _⟩, _⟩ => exact hurl

theorem Origin.WellFormed.readable {origin : Origin} (h : origin.WellFormed) : origin.Readable := by
  match origin, h with
  | .registry range index, h => exact h
  | .repository url reference, ⟨⟨hurl, hplain⟩, hreference⟩ =>
    refine ⟨⟨hplain, free_of_word hurl⟩, fun r hr => ?_⟩
    exact ⟨(hreference r hr).2, free_of_word (hreference r hr).1⟩
  | .directory path develop link, ⟨⟨hpath, hplain⟩, hstart⟩ =>
    exact ⟨⟨hplain, free_of_word hpath⟩, hstart⟩
  | .archive url, ⟨⟨hurl, hplain⟩, hscheme⟩ => exact ⟨⟨hplain, free_of_word hurl⟩, hscheme⟩

namespace Requirement

/-- A requirement, without conditions on the interpreter, whose parts fit their places. -/
structure WellFormed (r : Requirement) : Prop where
  name : Name.isValid r.name.toList = true
  extras : ∀ e ∈ r.extras, e.toList ≠ [] ∧ Blankless e.toList ∧
    Without ['[', ']', ',', ';', '@'] e.toList
  python : r.python = none
  origin : r.subject.WellFormed
  markers : ∀ m ∈ r.markers, m.toList ≠ [] ∧ trim m.toList = m.toList ∧
    ¬['-', '-'] <:+: m.toList
  hashes : ∀ h ∈ r.hashes, h.toList ≠ [] ∧ Blankless h.toList

theorem WellFormed.readable {r : Requirement} (h : r.WellFormed) : r.Readable where
  name := h.name
  extras e he := by
    obtain ⟨hne, hblankless, hplain⟩ := h.extras e he
    exact ⟨hne, trim_of_blankless hblankless, hplain, free_of_word hblankless⟩
  python := h.python
  origin := h.origin.readable
  markers m hm := by
    obtain ⟨hne, htrim, hhyphens⟩ := h.markers m hm
    exact ⟨hne, htrim, free_of_hyphens hhyphens⟩
  hashes hash hhash := ⟨(h.hashes hash hhash).1, free_of_word (h.hashes hash hhash).2⟩

theorem WellFormed.reprints {r : Requirement} (h : r.WellFormed) : r.Reprints where
  origin := by
    rcases r.subject.registry_or with ⟨range, index, hsubject⟩ | hindex
    · obtain ⟨-, -, -, hended⟩ := readHead_registry h.readable [] hsubject
      exact hended
    · rw [Origin.chars_eq hindex, ended_append (Origin.target_ne_nil h.readable.origin hindex)]
      exact ended_of_word h.origin.blankless_target
  markers m hm := option?_eq_none_of_hyphens (h.markers m hm).2.2
  hashes hash hhash := (h.hashes hash hhash).2

/-- A requirement whose parts fit their places is written so that it is read again, as an equal one:
ranges are compared by their clauses, and everything else as it is. -/
theorem parse_toString_wellFormed (r : Requirement) (h : r.WellFormed) :
    ∃ r', Requirement.parse (toString r) = .ok r' ∧ (r' == r) = true :=
  parse_of_reprints h.readable h.reprints

/-- A requirement with extras, a selected commit, a marker and two hashes. -/
def pinned : Requirement where
  name := "kek"
  extras := ["docs", "internal"]
  python := none
  markers := some "os_name == 'nt'"
  hashes := ["sha256:abc", "md5:0"]
  subject := .repository "https://e.com/kek.git" (some (.tag "v1"))

theorem parse_toString_pinned :
    toString pinned = "kek[docs,internal] @ git+https://e.com/kek.git#tag=v1; os_name == 'nt'"
        ++ " --hash=sha256:abc --hash=md5:0" ∧
      ∃ r', Requirement.parse (toString pinned) = .ok r' ∧ (r' == pinned) = true := by
  refine ⟨rfl, parse_toString_wellFormed pinned ⟨by decide, by decide, rfl, ?_, ?_, by decide⟩⟩
  · exact ⟨by decide, by decide⟩
  · decide +kernel

end Requirement

end Requisite
