import Requisite.Install.Plan
import Requisite.Proofs.Range.Normal
import Requisite.Proofs.Requirement.Writing

/-!
# What the arguments for pip mean

A package that is fetched, from an index or as an archive, is handed to pip as a requirement text and
its hashes.  The text of a range stands right behind the name, with shorthands spelled out, while a
written requirement has a blank there and the range as it was declared.  Both are read as the same
requirement.

* `Name.IsExtraWord` — an extra that can stand in brackets as it is;
* `Requirement.Fetched` — the requirements that are fetched, with parts that can be written;
* `Origin.StandsFor` — an origin that is as good as another one;
* **`Range.readRange_chars`** — the normal text of a range is read as an equal range behind a name;
* **`Requirement.read_chars_range`** — so it is without a blank between them;
* **`Requirement.parse_arguments`** — the first argument means what was declared, and the others are
  the hashes.
-/

namespace Requisite

open Text Options

/-- An origin that pip fetches a package from: an index, with a range that was read, or an archive. -/
def Origin.Fetched : Origin → Prop
  | .registry range _ => ∃ text, Range.parse text = .ok range
  | .archive url => Origin.WellFormed (.archive url)
  | _ => False

/-- An extra of one word, without the signs that a requirement is taken apart at. -/
def Name.IsExtraWord (cs : List Char) : Prop :=
  cs ≠ [] ∧ Blankless cs ∧ Without ['[', ']', ',', ';', '@'] cs

instance : DecidablePred Name.IsExtraWord := fun _ => inferInstanceAs (Decidable (_ ∧ _ ∧ _))

/-- A requirement that pip fetches, and whose name and extras can be written. -/
structure Requirement.Fetched (r : Requirement) : Prop where
  name : Name.isValid r.name.toList = true
  extras : ∀ e ∈ r.extras, Name.IsExtraWord e.toList
  origin : r.subject.Fetched

/-- An origin is as good as another one: it is the same archive, or no certain index with an equal
range, which lets the same candidates through. -/
def Origin.StandsFor : Origin → Origin → Prop
  | .registry range' index, .registry range _ =>
    index = none ∧ (range' == range) = true ∧
      ∀ candidate, range'.accepts candidate = range.accepts candidate
  | .archive url', .archive url => url' = url
  | _, _ => False

theorem Name.IsExtraWord.isExtra {cs : List Char} (h : IsExtraWord cs) : IsExtra cs :=
  ⟨h.1, trim_of_blankless h.2.1, h.2.2, free_of_word h.2.1⟩

/-! ### The normal text of a range -/

namespace Range

variable {text : String} {r : Range}

/-- The normal text of a range is like a range, has no blank at its ends and starts with a sign, if
there are clauses at all. -/
theorem of_chars (h : parse text = .ok r) : Tame r.chars ∧ trim r.chars = r.chars ∧
    ∀ c ∈ r.chars.head?, c ∈ ['=', '!', '<', '>', '~'] := by
  rcases read_eq_ok h with ⟨rfl, -⟩ | ⟨hclauses, -⟩
  · exact ⟨tame_nil, rfl, nofun⟩
  obtain ⟨hne, hwritten⟩ := written_of_clausesOf hclauses
  refine ⟨tame_of_clausesOf (clausesOf_chars hne hwritten), (trim_chars hne hwritten).1, ?_⟩
  obtain ⟨c, clauses, hcons⟩ := List.exists_cons_of_ne_nil hne
  rw [hcons] at hwritten
  obtain ⟨rest, hrest, -⟩ := exists_sign_append hwritten
  rw [chars, hcons, hrest]
  cases c.relation <;> simp [Relation.sign]

/-- Behind a name, the normal text of a range is read as the range. -/
theorem readRange_chars (h : parse text = .ok r) :
    ∃ r', readRange r.chars = .ok r' ∧ r'.clauses = r.clauses := by
  obtain ⟨r', hparse, hclauses⟩ := parse_chars h
  have hread : Range.read r.chars = .ok r' := by
    rwa [parse, Range.text, String.toList_ofList] at hparse
  have hdigit : (r.chars.head?.map Char.isDigit).getD false = false := by
    have hsign := (of_chars h).2.2
    cases hhead : r.chars.head? with
    | none => rfl
    | some c =>
      have hc : ∀ c ∈ ['=', '!', '<', '>', '~'], c.isDigit = false := by decide
      exact hc c (hsign c hhead)
  refine ⟨r', ?_, hclauses⟩
  unfold readRange
  rw [hdigit, if_neg Bool.false_ne_true]
  dsimp only
  rw [hread]
  rfl

end Range

/-! ### Requirement texts without a blank -/

section Head

variable {name : String} {extras : List String} (hname : Name.isValid name.toList = true)
  (hextras : ∀ e ∈ extras, Name.IsExtraWord e.toList)

include hname hextras

/-- The name and the extras as they are written are one word. -/
theorem blankless_head : Blankless (name.toList ++ extrasChars extras) := by
  apply (Name.blankless_of_isValid hname).append
  by_cases hne : extras = []
  · rw [hne]
    exact nofun
  · have hinner : Blankless ([','].intercalate (extras.map String.toList)) := by
      apply Blankless.intercalate
      · simpa using fun e he => (hextras e he).2.1
      · rfl
    have hopen : Blankless ['['] := by decide
    have hclose : Blankless [']'] := by decide
    rw [extrasChars_eq hne]
    exact hopen.append (hinner.append hclose)

/-- A range in its normal text is read behind the name and the extras, without a blank between. -/
theorem Requirement.read_chars_range {text : String} {range : Range}
    (hrange : Range.parse text = .ok range) : ∃ range',
    Requirement.read (name.toList ++ extrasChars extras ++ range.chars) =
      .ok { Declared.plain name (Origin.registry range' none) with extras } ∧
    range'.clauses = range.clauses := by
  have hplain : ∀ e ∈ extras, Name.IsExtra e.toList :=
    fun e he => (hextras e he).isExtra
  have hword := blankless_head hname hextras
  have hne : name.toList ++ extrasChars extras ≠ [] :=
    List.append_ne_nil_of_left_ne_nil (Name.ne_nil_of_isValid hname) _
  obtain ⟨htame, htrim, hsign⟩ := Range.of_chars hrange
  obtain ⟨range', hread, hclauses⟩ := Range.readRange_chars hrange
  have hsigns : ∀ c ∈ ['=', '!', '<', '>', '~'],
      Name.isNameChar c = false ∧ c ∉ ['+', ':', '/'] := by
    decide
  have hwithout : Without ['@', ';'] (name.toList ++ extrasChars extras ++ range.chars) :=
    (without_head hname hplain).append (htame.without.of_subset (by decide))
  have hfree : Free (name.toList ++ extrasChars extras ++ range.chars) :=
    Free.of_word hword htame.free.2
  have htext : trim (name.toList ++ extrasChars extras ++ range.chars) =
      name.toList ++ extrasChars extras ++ range.chars := by
    have hended := ended_trim range.chars
    rw [htrim] at hended
    rw [trim_word hword hne, trimEnd_eq_self_iff.2 hended]
  have hbare : startsWithAny targetStarts (name.toList ++ extrasChars extras ++ range.chars) =
      false := by
    have hstart : ∀ c ∈ (extrasChars extras ++ range.chars).head?,
        c = '[' ∨ c ∈ ['=', '!', '<', '>', '~'] := by
      by_cases hnil : extras = []
      · rw [hnil]
        exact fun c hc => Or.inr (hsign c hc)
      · rw [extrasChars_eq hnil]
        exact fun c hc => Or.inl (Option.some.inj hc).symm
    rw [List.append_assoc]
    apply not_startsWithAny_of_head? hname
    · intro c hc
      rcases hstart c hc with rfl | hc
      · rfl
      · exact (hsigns c hc).1
    · intro c hc
      rcases hstart c hc with rfl | hc
      · decide
      · exact (hsigns c hc).2
  have hparts : headAndMarkers (name.toList ++ extrasChars extras ++ range.chars) =
      (name.toList ++ extrasChars extras ++ range.chars, none) := by
    rw [headAndMarkers, cut_eq_none.2 (hwithout ';' (by decide))]
    dsimp only
    rw [htext]
  have hregistry : readHead (name.toList ++ extrasChars extras ++ range.chars)
      (name.toList ++ extrasChars extras ++ range.chars) =
        .ok { Declared.plain name (Origin.registry range' none) with extras } := by
    rw [readHead, cut_eq_none.2 (hwithout '@' (by decide))]
    dsimp only
    rw [readRegistry_tame hname hplain (fun c hc => (hsigns c (hsign c hc)).1) (by rwa [htrim]),
      htrim, hread]
    rfl
  exact ⟨range', read_of_free htext hbare hfree hparts hregistry, hclauses⟩

end Head

/-! ### The arguments of a requirement -/

namespace Requirement

/-- An archive is read behind the name and the extras. -/
theorem read_archive {name url : String} {extras : List String}
    (hname : Name.isValid name.toList = true)
    (hextras : ∀ e ∈ extras, Name.IsExtraWord e.toList)
    (hurl : Origin.WellFormed (.archive url)) : ∃ r',
      Requirement.read (name.toList ++ extrasChars extras ++ (" @ ".toList ++ url.toList)) = .ok r' ∧
      r'.name = name ∧ r'.extras = extras ∧ r'.subject = .archive url ∧
      r'.python = none ∧ r'.markers = none ∧ r'.hashes = [] := by
  have hwritten : WellFormed { Declared.plain name (.archive url) with extras } :=
    ⟨hname, hextras, rfl, hurl, nofun, nofun⟩
  obtain ⟨r', hparse, hequal⟩ := parse_of_reprints hwritten.readable hwritten.reprints
  have hchars : Requirement.chars { Declared.plain name (.archive url) with extras } =
      name.toList ++ extrasChars extras ++ (" @ ".toList ++ url.toList) ++ [] := rfl
  have hread : Requirement.read
      (Requirement.chars { Declared.plain name (.archive url) with extras }) = .ok r' := by
    rw [← hparse, Requirement.parse]
    exact congrArg Requirement.read String.toList_ofList.symm
  rw [hchars, List.append_nil] at hread
  obtain ⟨hname', hextras', hpython, hmarkers, hhashes, hsubject⟩ := beq_iff.1 hequal
  refine ⟨r', hread, hname', hextras', ?_, ?_, hmarkers, hhashes⟩
  · cases horigin : r'.subject with
    | archive url' =>
      rw [horigin] at hsubject
      exact congrArg Origin.archive (eq_of_beq hsubject)
    | _ =>
      rw [horigin] at hsubject
      nomatch hsubject
  · cases hrange : r'.python with
    | none => rfl
    | some range =>
      rw [hrange] at hpython
      nomatch hpython

/-- What pip is handed for a package that it fetches: the first argument is read as the requirement
with its name, its extras and an origin that is as good as the declared one, without conditions, and
the others are the hashes in their order. -/
theorem parse_arguments (r : Requirement) (h : r.Fetched) :
    ∃ text r', r.toDependency.arguments = text :: r.hashes.map ("--hash=" ++ ·) ∧
      Requirement.parse text = .ok r' ∧ r'.name = r.name ∧ r'.extras = r.extras ∧
      r'.subject.StandsFor r.subject ∧ r'.python = none ∧ r'.markers = none ∧ r'.hashes = [] := by
  obtain ⟨hname, hextras, horigin⟩ := h
  have hhashes : hashArguments r.hashes = r.hashes.map ("--hash=" ++ ·) := by
    apply List.map_congr_left
    intro hash _
    rw [String.ofList_append, String.ofList_toList, String.ofList_toList]
  have hparse : ∀ cs d, Requirement.read cs = .ok d → Requirement.parse (String.ofList cs) = .ok d := by
    intro cs d hread
    rwa [Requirement.parse, String.toList_ofList]
  show ∃ text r', Requirement.arguments r = _ ∧ _
  unfold Requirement.arguments
  cases hsubject : r.subject with
  | registry range index =>
    rw [hsubject] at horigin
    obtain ⟨text, hrange⟩ := horigin
    obtain ⟨range', hread, hclauses⟩ := read_chars_range hname hextras hrange
    refine ⟨_, _, congrArg _ hhashes, hparse _ _ hread, rfl, rfl, ?_, rfl, rfl, rfl⟩
    exact ⟨rfl, Range.beq_of_clauses hclauses, Range.accepts_congr hclauses⟩
  | archive url =>
    rw [hsubject] at horigin
    obtain ⟨r', hread, hname', hextras', hurl, hrest⟩ := read_archive hname hextras horigin
    rw [← List.append_assoc] at hread
    refine ⟨_, r', congrArg _ hhashes, hparse _ _ hread, hname', hextras', ?_, hrest⟩
    rw [hurl]
    rfl
  | repository url reference =>
    rw [hsubject] at horigin
    exact horigin.elim
  | directory path develop link =>
    rw [hsubject] at horigin
    exact horigin.elim

/-- A requirement with a shorthand, conditions and hashes, from a certain index. -/
def shorthand (range : Range) : Requirement where
  name := "kek"
  extras := ["docs", "internal"]
  python := some range
  markers := some "os_name == 'nt'"
  hashes := ["sha256:abc", "-r x"]
  subject := .registry range (some "private")

theorem parse_arguments_shorthand :
    ∃ range, Range.parse "^ 1!0.2-RC" = .ok range ∧
      (shorthand range).toDependency.arguments =
        ["kek[docs,internal]>=1!0.2-RC,<1!0.3", "--hash=sha256:abc", "--hash=-r x"] ∧
      ∃ r', Requirement.parse "kek[docs,internal]>=1!0.2-RC,<1!0.3" = .ok r' ∧
        r'.name = "kek" ∧ r'.extras = ["docs", "internal"] ∧
        r'.subject.StandsFor (.registry range (some "private")) ∧
        r'.python = none ∧ r'.markers = none ∧ r'.hashes = [] := by
  have hrange : Range.parse "^ 1!0.2-RC" = .ok Range.epochShorthand := rfl
  have harguments : (shorthand Range.epochShorthand).toDependency.arguments =
      ["kek[docs,internal]>=1!0.2-RC,<1!0.3", "--hash=sha256:abc", "--hash=-r x"] := by
    decide +kernel
  obtain ⟨text, r', htext, hread⟩ := parse_arguments (shorthand Range.epochShorthand)
    ⟨by decide, by decide, "^ 1!0.2-RC", hrange⟩
  obtain rfl := (List.cons.inj (harguments.symm.trans htext)).1
  exact ⟨Range.epochShorthand, hrange, harguments, r', hread⟩

end Requirement

end Requisite
