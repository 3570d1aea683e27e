import Requisite.Proofs.Requirement.Writing
import Requisite.Requirement.Table

/-!
# The forms of a dependency

A dependency on a range of versions, a repository, a project or an archive is stated in several
forms: as a requirement text, as the text or as the table that a configuration has under the name.
The texts are taken apart at their signs and the table is looked up by its keys, and what they denote
is the same.

* `Entries.Matches` — a table with the same parts as another one, under the keys that are looked up;
* **`Entries.Matches.requirement`** — such a table denotes the same requirement;
* **`Requirement.read_range`**, **`Requirement.parse_target`** — what stands behind a name is read as
  it would be read alone;
* `Origin.Forms` — the target and the table that an origin is stated as;
* **`Requirement.forms_agree`** — the forms denote equal dependencies.
-/

namespace Requisite

open Text Options

/-! ### Tables with the same parts -/

namespace Entries

/-- The keys under which a part is looked up. -/
def partKeys : List String :=
  ["git", "rev", "branch", "tag", "path", "url", "version", "source", "python", "markers", "extras"]

/-- The keys under which a flag is looked up. -/
def flagKeys : List String := ["develop", "link"]

/-- A table with the same parts as another one, whatever else it holds.  A missing flag is an unset
one. -/
structure Matches (t entries : Entries) : Prop where
  part : ∀ key ∈ partKeys, Toml.lookup key t = Toml.lookup key entries
  flag : ∀ key ∈ flagKeys,
    (Toml.lookup key t).getD (.boolean false) = (Toml.lookup key entries).getD (.boolean false)

theorem flag_eq (name : String) (t : Entries) (key : String) :
    Entries.flag name t key =
      match (Toml.lookup key t).getD (.boolean false) with
      | .boolean b => .ok b
      | other => .error (.config name (.notABoolean key other.kind)) := by
  rw [flag]
  cases Toml.lookup key t with
  | none => rfl
  | some value => cases value <;> rfl

/-- What a table denotes is a matter of the keys that are looked up. -/
theorem Matches.requirement {t entries : Entries} (h : t.Matches entries) (name : String) :
    Entries.requirement name t = Entries.requirement name entries := by
  have hstring : ∀ key ∈ partKeys, string? name t key = string? name entries key :=
    fun key hkey => by rw [string?, string?, h.part key hkey]
  have hflag : ∀ key ∈ flagKeys, Entries.flag name t key = Entries.flag name entries key :=
    fun key hkey => by rw [flag_eq, flag_eq, h.flag key hkey]
  have hreference : reference name t = reference name entries := by
    rw [reference, reference, hstring "rev" (by decide), hstring "branch" (by decide),
      hstring "tag" (by decide)]
  have horigin : origin name t = origin name entries := by
    rw [origin, origin, hstring "git" (by decide), hreference, hstring "path" (by decide),
      hflag "develop" (by decide), hflag "link" (by decide), hstring "url" (by decide),
      hstring "version" (by decide), hstring "source" (by decide)]
  have hpython : python name t = python name entries := by
    rw [python, python, hstring "python" (by decide)]
  have hextras : extras name t = extras name entries := by
    rw [extras, extras, h.part "extras" (by decide)]
  rw [Entries.requirement, Entries.requirement, horigin, hpython, hstring "markers" (by decide),
    hextras]

end Entries

/-! ### Ranges behind a name -/

namespace Range

/-- A range is not taken for a target. -/
theorem not_startsWithAny_of_parse {text : String} {range : Range}
    (h : parse text = .ok range) : startsWithAny targetStarts (trim text.toList) = false := by
  have hplain := (tame_of_parse h).without
  rw [Bool.eq_false_iff]
  intro htarget
  obtain ⟨s, hs, rest, hrest⟩ := startsWithAny_iff.1 htarget
  -- All beginnings have a sign that ranges do not have, but for the one of repositories.
  have hsigns : ∀ s ∈ targetStarts, s = "git+" ∨ '/' ∈ s.toList ∨ ':' ∈ s.toList := by decide
  rcases hsigns s hs with rfl | hslash | hcolon
  · rcases read_eq_ok h with ⟨-, hany | hany⟩ | ⟨hclauses, -⟩
    · nomatch hrest.symm.trans hany
    · nomatch hrest.symm.trans hany
    · rw [hrest] at hclauses
      nomatch isAlpha_of_clausesOf hclauses
  · exact hplain '/' (by decide) (by rw [hrest]; exact List.mem_append_left rest hslash)
  · exact hplain ':' (by decide) (by rw [hrest]; exact List.mem_append_left rest hcolon)

/-- The sign before a version makes no difference. -/
theorem readRange_equal {c : Char} (hc : c.isDigit = true) (cs : List Char) :
    readRange ('=' :: c :: cs) = readRange (c :: cs) := by
  have hdigit : (((c :: cs).head?.map Char.isDigit).getD false) = true := hc
  rw [readRange, readRange, if_pos hdigit]
  rfl

end Range

namespace Requirement

/-- Behind a name and a blank, a text like a range is read as a range. -/
theorem read_range {name : String} (hname : Name.isValid name.toList = true) {body : List Char}
    (htame : Range.Tame (trim body)) :
    Requirement.read (name.toList ++ ' ' :: body) =
      (readRange (trim body)).map fun range =>
        Declared.plain name (Origin.registry range none) := by
  have hbody := Range.tame_of_trim htame
  have htrim : trim (name.toList ++ ' ' :: body) = name.toList ++ trimEnd (' ' :: body) :=
    trim_word (Name.blankless_of_isValid hname) (Name.ne_nil_of_isValid hname) _
  have hrest : trim (trimEnd (' ' :: body)) = trim body := by
    rw [trim_trimEnd, trim_cons_blank rfl]
  obtain ⟨b, hb, -⟩ := exists_blanks_trimEnd (' ' :: body)
  have hparted : Parted (trimEnd (' ' :: body)) := by
    intro c hc
    obtain ⟨ds, hds⟩ := List.head?_eq_some_iff.1 hc
    rw [hds, List.cons_append] at hb
    rw [← (List.cons.inj hb).1]
    rfl
  have hplain : Without ['@', ';'] (name.toList ++ trimEnd (' ' :: body)) := by
    have hsigns : Without ['@', ';'] (' ' :: body) :=
      (hbody.cons_blank rfl).without.of_subset (by decide)
    refine ((Name.without_of_isValid hname).of_subset (by decide)).append ?_
    exact fun c hc => notMem_trimEnd (hsigns c hc)
  have hfree : Free (name.toList ++ trimEnd (' ' :: body)) := by
    refine Free.of_word (Name.blankless_of_isValid hname) (hbody.free.of_isInfix ?_)
    exact ⟨[], b, hb.symm⟩
  have hparts : headAndMarkers (name.toList ++ trimEnd (' ' :: body)) =
      (name.toList ++ trimEnd (' ' :: body), none) := by
    rw [headAndMarkers, cut_eq_none.2 (hplain ';' (by decide))]
    dsimp only
    rw [← htrim, trim_trim]
  have hregistry := @readRegistry_tame name [] hname (List.forall_mem_nil _) _
    hparted.not_isNameChar (by rwa [hrest]) (name.toList ++ trimEnd (' ' :: body))
  rw [show extrasChars [] = [] from rfl, List.append_nil, hrest] at hregistry
  rw [read_eq, htrim, not_startsWithAny_name hname (behindName_of_parted hparted),
    if_neg Bool.false_ne_true, split_of_free hfree, hparts]
  show (readHead _ (name.toList ++ trimEnd (' ' :: body)) >>= fun r => _) = _
  rw [readHead, cut_eq_none.2 (hplain '@' (by decide))]
  dsimp only
  rw [hregistry]
  cases readRange (trim body) <;> rfl

theorem parse_range {name text : String} {range : Range} (hname : Name.isValid name.toList = true)
    (h : Range.parse text = .ok range) :
    Requirement.parse (name ++ " " ++ text) = (readRange (trim text.toList)).map fun range =>
      Declared.plain name (Origin.registry range none) := by
  rw [Requirement.parse, String.toList_append, String.toList_append, List.append_assoc]
  exact read_range hname (Range.tame_of_parse h)

/-- The text of a range that a configuration has under a name is read as it is behind the name. -/
theorem ofText_range {name text : String} {range : Range} (hname : Name.isValid name.toList = true)
    (h : Range.parse text = .ok range) :
    Requirement.ofText name text.toList = Requirement.parse (name ++ " " ++ text) := by
  have htame := Range.tame_of_parse h
  have hended := ended_trim text.toList
  have htrim := trim_trim text.toList
  rw [parse_range hname h, Requirement.ofText,
    if_neg (Bool.eq_false_iff.1 (Range.not_startsWithAny_of_parse h))]
  generalize trim text.toList = cs at *
  split
  next hdigit =>
    cases cs with
    | nil => nomatch hdigit
    | cons c cs =>
      have hequal : trim ('=' :: c :: cs) = '=' :: c :: cs :=
        trim_of_ended rfl ((ended_word (by decide : Blankless ['='])).2 hended)
      have hsign : Range.Tame ['='] := Range.tame_of_signs (by decide)
      rw [List.append_assoc]
      refine (@read_range name hname ('=' :: c :: cs) ?_).trans ?_
      · rw [hequal]
        exact hsign.append htame
      · rw [hequal, Range.readRange_equal hdigit]
  next =>
    rw [List.append_assoc]
    refine (@read_range name hname cs ?_).trans ?_
    · rwa [htrim]
    · rw [htrim]

/-! ### Targets behind a name -/

/-- Behind a name and `@`, a target without blanks and markers is read as a target. -/
theorem parse_target {name target : String} (hname : Name.isValid name.toList = true)
    (hword : Blankless target.toList) (hplain : ';' ∉ target.toList) {c : Char}
    (hhead : target.toList.head? = some c) (hc : c ≠ '-') {origin : Origin}
    (h : Origin.ofTarget target.toList = .ok (origin, [])) :
    Requirement.parse (name ++ " @ " ++ target) = .ok (Declared.plain name origin) := by
  have htarget : target.toList ≠ [] := fun hnil => by rw [hnil] at hhead; cases hhead
  have hended : Ended ([' ', '@', ' '] ++ target.toList) :=
    (ended_append htarget).2 (ended_of_word hword)
  have htrim : trim (name.toList ++ ([' ', '@', ' '] ++ target.toList)) =
      name.toList ++ ([' ', '@', ' '] ++ target.toList) := by
    rw [trim_word (Name.blankless_of_isValid hname) (Name.ne_nil_of_isValid hname),
      trimEnd_eq_self_iff.2 hended]
  have hfree : Free (name.toList ++ ([' ', '@', ' '] ++ target.toList)) := by
    have hoption : option? target.toList = none :=
      option?_eq_none_of_head fun heq => hc (Option.some.inj (hhead.symm.trans heq))
    exact Free.of_word (Name.blankless_of_isValid hname)
      ⟨fun _ => rfl, fun hat => absurd hat (by decide), fun _ => hoption, free_of_word hword⟩
  have hparts : headAndMarkers (name.toList ++ ([' ', '@', ' '] ++ target.toList)) =
      (name.toList ++ ([' ', '@', ' '] ++ target.toList), none) := by
    have hsign : ';' ∉ name.toList ++ ([' ', '@', ' '] ++ target.toList) := by
      rw [List.mem_append, List.mem_append, not_or, not_or]
      exact ⟨Name.without_of_isValid hname ';' (by decide), by decide, hplain⟩
    rw [headAndMarkers, cut_eq_none.2 hsign]
    dsimp only
    rw [htrim]
  have hread : readHead (name.toList ++ ([' ', '@', ' '] ++ target.toList))
      (name.toList ++ ([' ', '@', ' '] ++ target.toList)) =
        .ok (Declared.plain name origin) := by
    have hat : '@' ∉ name.toList ++ [' '] := by
      rw [List.mem_append, not_or]
      exact ⟨Name.without_of_isValid hname '@' (by decide), by decide⟩
    have hcut : cut '@' (name.toList ++ ([' ', '@', ' '] ++ target.toList)) =
        some (name.toList ++ [' '], ' ' :: target.toList) := by
      rw [← cut_append hat, List.append_assoc]
      rfl
    have hhead := @readName_head name [] hname (List.forall_mem_nil _) [' '] (by decide)
    rw [show extrasChars [] = [] from rfl, List.append_nil] at hhead
    rw [readHead, hcut]
    dsimp only
    rw [readTarget, hhead]
    show ((Origin.ofTarget (trim (' ' :: target.toList))).mapError _ >>= fun _ => _) = _
    rw [trim_cons_blank rfl, trim_of_blankless hword, h]
    rfl
  have hparse : (name ++ " @ " ++ target).toList =
      name.toList ++ ([' ', '@', ' '] ++ target.toList) := by
    rw [String.toList_append, String.toList_append, List.append_assoc]
    rfl
  rw [Requirement.parse, hparse]
  exact read_of_free htrim (not_startsWithAny_name hname (behindName_of_parted (parted_cons rfl _)))
    hfree hparts hread

end Requirement

namespace Origin

/-- The fragment of some flags; nothing if there are none. -/
def flagFragment (flags : List String) : String :=
  if flags.isEmpty then "" else "#" ++ "&".intercalate flags

/-- The target and the table that an origin is stated as, none of whose parts has a blank or a sign
that ends it.  The flags of a project may be written in any order. -/
inductive Forms : Origin → String → Entries → Prop
  | repository {url : String} (hurl : Blankless url.toList ∧ Without ['#', ';'] url.toList)
      (hgit : after? "git+" url.toList = none) :
      Forms (.repository url none) ("git+" ++ url) [("git", .string url)]
  | commit {url : String} {r : Reference}
      (hurl : Blankless url.toList ∧ Without ['#', ';'] url.toList)
      (hgit : after? "git+" url.toList = none)
      (hvalue : Blankless r.value.toList ∧ Without ['#', ';', '&'] r.value.toList) :
      Forms (.repository url (some r)) ("git+" ++ url ++ "#" ++ r.key ++ "=" ++ r.value)
        [("git", .string url), (r.key, .string r.value)]
  | directory {path : String} {flags : List String}
      (hpath : Blankless path.toList ∧ Without ['#', ';'] path.toList)
      (hstart : startsWithAny pathStarts path.toList = true)
      (hflags : ∀ flag ∈ flags, flag ∈ Entries.flagKeys) :
      Forms (.directory ⟨path⟩ (flags.contains "develop") (flags.contains "link"))
        (path ++ flagFragment flags)
        [("path", .string path), ("develop", .boolean (flags.contains "develop")),
          ("link", .boolean (flags.contains "link"))]
  | archive {url : String} (hurl : Blankless url.toList ∧ Without ['#', ';'] url.toList)
      (hgit : after? "git+" url.toList = none) (hscheme : hasScheme url.toList = true) :
      Forms (.archive url) url [("url", .string url)]

/-- The table denotes the origin. -/
theorem Forms.requirement {origin : Origin} {target : String} {entries : Entries}
    (h : Forms origin target entries) (name : String) :
    Entries.requirement name entries = .ok (Declared.plain name origin) := by
  have hgit : ∀ {url : String} (reference : Option Reference), after? "git+" url.toList = none →
      (Except.ok (Declared.plain name (Origin.repository
        (((after? "git+" url.toList).map String.ofList).getD url) reference)) :
          Except DependencyError Requirement) =
        .ok (Declared.plain name (.repository url reference)) := by
    intro url reference hgit
    rw [hgit]
    rfl
  cases h with
  | repository hurl hnot => exact hgit none hnot
  | @commit url r hurl hnot hvalue => cases r <;> exact hgit _ hnot
  | directory hpath hstart hflags => rfl
  | archive hurl hnot hscheme => rfl

/-- The flags of a fragment are a word between its signs. -/
theorem toList_flagFragment {flags : List String} (hne : flags ≠ []) :
    (flagFragment flags).toList = '#' :: ['&'].intercalate (flags.map String.toList) := by
  rw [flagFragment, if_neg (by simpa using hne), String.toList_append, String.toList_intercalate]
  rfl

theorem plain_of_mem_flagKeys : ∀ flag ∈ Entries.flagKeys,
    flag.toList ≠ [] ∧ Blankless flag.toList ∧ Without ['#', '&', '=', ';'] flag.toList := by
  decide

theorem word_flagFragment {flags : List String} (hflags : ∀ flag ∈ flags, flag ∈ Entries.flagKeys) :
    Blankless (flagFragment flags).toList ∧ ';' ∉ (flagFragment flags).toList := by
  by_cases hne : flags = []
  · rw [hne]
    exact ⟨nofun, nofun⟩
  have hplain : ∀ piece ∈ flags.map String.toList, Blankless piece ∧ Without [';'] piece := by
    intro piece hpiece
    obtain ⟨flag, hflag, rfl⟩ := List.mem_map.1 hpiece
    obtain ⟨-, hword, hplain⟩ := plain_of_mem_flagKeys flag (hflags flag hflag)
    exact ⟨hword, hplain.of_subset (by decide)⟩
  have hword := Blankless.intercalate (fun piece hpiece => (hplain piece hpiece).1)
    (by decide : isBlank '&' = false)
  have hsign := Without.intercalate (fun piece hpiece => (hplain piece hpiece).2)
    (by decide : '&' ∉ [';'])
  rw [toList_flagFragment hne, List.mem_cons, not_or]
  exact ⟨List.forall_mem_cons.2 ⟨rfl, hword⟩, by decide, hsign ';' (by decide)⟩

/-- Flags are read as keys without values. -/
theorem fragmentPairs_flags {flags : List String} (hne : flags ≠ [])
    (hflags : ∀ flag ∈ flags, flag ∈ Entries.flagKeys) :
    fragmentPairs (['&'].intercalate (flags.map String.toList)) =
      flags.map fun flag => (flag.toList, []) := by
  have hplain := fun flag hflag => plain_of_mem_flagKeys flag (hflags flag hflag)
  have hsplit : (['&'].intercalate (flags.map String.toList)).splitOn '&' =
      flags.map String.toList := by
    refine List.splitOn_intercalate '&' (fun piece hpiece => ?_) (by simpa using hne)
    obtain ⟨flag, hflag, rfl⟩ := List.mem_map.1 hpiece
    exact (hplain flag hflag).2.2 '&' (by decide)
  have hkept : (flags.map String.toList).filter (fun piece => !piece.isEmpty) =
      flags.map String.toList := by
    refine List.filter_eq_self.2 fun piece hpiece => ?_
    obtain ⟨flag, hflag, rfl⟩ := List.mem_map.1 hpiece
    simpa using (hplain flag hflag).1
  rw [fragmentPairs, hsplit, hkept, List.map_map]
  refine List.map_congr_left fun flag hflag => ?_
  have hcut : cut '=' flag.toList = none := cut_eq_none.2 ((hplain flag hflag).2.2 '=' (by decide))
  show (cut '=' flag.toList).getD (flag.toList, []) = _
  rw [hcut]
  rfl

theorem any_flags (flags : List String) (key : String) :
    ((flags.map fun flag => (flag.toList, ([] : List Char))).any fun (k, _) => k == key.toList) =
      flags.contains key := by
  rw [List.any_map, List.contains_eq_any_beq]
  congr 1
  funext flag
  show (flag.toList == key.toList) = (key == flag)
  rw [Bool.eq_iff_iff, beq_iff_eq, beq_iff_eq, String.toList_inj, eq_comm]

/-- The target denotes the origin. -/
theorem Forms.ofTarget {origin : Origin} {target : String} {entries : Entries}
    (h : Forms origin target entries) : Origin.ofTarget target.toList = .ok (origin, []) := by
  cases h with
  | @repository url hurl hgit =>
    have hsign : '#' ∉ "git+".toList ++ url.toList := by
      rw [List.mem_append, not_or]
      exact ⟨by decide, hurl.2 '#' (by decide)⟩
    rw [String.toList_append, ofTarget_of_notMem hsign, after?_eq_some.2 rfl]
    dsimp only
    rw [String.ofList_toList]
  | @commit url r hurl hgit hvalue =>
    have htarget : ("git+" ++ url ++ "#" ++ r.key ++ "=" ++ r.value).toList =
        "git+".toList ++ url.toList ++ '#' :: (r.key.toList ++ '=' :: r.value.toList) := by
      simp only [String.toList_append, List.append_assoc]
      rfl
    rw [htarget, ofTarget_reference r (hurl.2 '#' (by decide)) (hvalue.2 '&' (by decide)),
      String.ofList_toList, String.ofList_toList, Reference.withValue_eq_iff.2 rfl]
  | @directory path flags hpath hstart hflags =>
    have hsign := hpath.2 '#' (by decide)
    by_cases hne : flags = []
    · subst hne
      have htarget : (path ++ flagFragment []).toList = path.toList := by
        rw [String.toList_append]
        exact List.append_nil _
      rw [htarget, ofTarget_of_notMem hsign, after?_git_of_startsWithAny hstart]
      dsimp only
      rw [if_pos hstart, String.ofList_toList]
      rfl
    · rw [String.toList_append, toList_flagFragment hne, ofTarget_directory hstart hsign,
        fragmentPairs_flags hne hflags, any_flags, any_flags, String.ofList_toList]
  | archive hurl hgit hscheme =>
    rw [ofTarget_of_notMem (hurl.2 '#' (by decide)), hgit]
    dsimp only
    rw [not_startsWithAny_of_hasScheme hscheme, if_neg Bool.false_ne_true, if_pos hscheme,
      String.ofList_toList]

/-- A target has neither blanks nor signs of markers. -/
theorem Forms.word {origin : Origin} {target : String} {entries : Entries}
    (h : Forms origin target entries) : Blankless target.toList ∧ ';' ∉ target.toList := by
  cases h with
  | @repository url hurl hgit =>
    rw [String.toList_append, List.mem_append, not_or]
    exact ⟨Blankless.append (by decide) hurl.1, by decide, hurl.2 ';' (by decide)⟩
  | @commit url r hurl hgit hvalue =>
    have hkey : Without [';'] r.key.toList := (without_key r).of_subset (by decide)
    simp only [String.toList_append, List.mem_append, not_or]
    refine ⟨?_, ⟨⟨⟨⟨by decide, hurl.2 ';' (by decide)⟩, by decide⟩, hkey ';' (by decide)⟩, by decide⟩,
      hvalue.2 ';' (by decide)⟩
    have hsigns : Blankless "#".toList ∧ Blankless "=".toList := by decide
    exact ((((Blankless.append (by decide) hurl.1).append hsigns.1).append (blankless_key r)).append
      hsigns.2).append hvalue.1
  | @directory path flags hpath hstart hflags =>
    obtain ⟨hword, hplain⟩ := word_flagFragment hflags
    rw [String.toList_append, List.mem_append, not_or]
    exact ⟨hpath.1.append hword, hpath.2 ';' (by decide), hplain⟩
  | archive hurl hgit hscheme => exact ⟨hurl.1, hurl.2 ';' (by decide)⟩

theorem Forms.head {origin : Origin} {target : String} {entries : Entries}
    (h : Forms origin target entries) : ∃ c, target.toList.head? = some c ∧ c ≠ '-' := by
  cases h with
  | repository hurl hgit =>
    rw [String.toList_append]
    exact ⟨'g', rfl, by decide⟩
  | commit hurl hgit hvalue =>
    simp only [String.toList_append, List.append_assoc]
    exact ⟨'g', rfl, by decide⟩
  | directory hpath hstart hflags =>
    obtain ⟨c, ds, hcons, hc⟩ := exists_cons_of_startsWithAny hstart
    rw [String.toList_append, hcons]
    refine ⟨c, rfl, ?_⟩
    rcases hc with rfl | rfl <;> decide
  | archive hurl hgit hscheme =>
    obtain ⟨c, w, rest, hcons, hc, -⟩ := hasScheme_iff.1 hscheme
    rw [hcons]
    refine ⟨c, rfl, ?_⟩
    rintro rfl
    nomatch hc

end Origin

/-! ### The forms -/

namespace Requirement

theorem beq_toDependency (r r' : Requirement) : (r.toDependency == r'.toDependency) = (r == r') :=
  rfl

/-- A table with the text of a range denotes the range. -/
theorem requirement_range {text : String} {range : Range} (h : Range.parse text = .ok range)
    (name : String) : Entries.requirement name [("version", .string text)] =
      .ok (Declared.plain name (.registry range none)) := by
  have horigin : Entries.origin name [("version", .string text)] = .ok (.registry range none) := by
    show ((Range.parse text).mapError DependencyError.range >>= fun range => _) = _
    rw [h]
    rfl
  rw [Entries.requirement, horigin]
  rfl

/-- The forms of a dependency denote equal dependencies: the text of a range behind a name, the same
text under the name, and a table with that text; and a target behind a name and the table with its
parts. -/
theorem forms_agree (name : String) (hname : Name.isValid name.toList = true) :
    (∀ (text : String) (range : Range), Range.parse text = .ok range →
      ∀ t : Entries, t.Matches [("version", .string text)] →
        ∃ r r' : Requirement, Requirement.parse (name ++ " " ++ text) = .ok r ∧
          Dependency.ofValue name (.string text) = .ok r.toDependency ∧
          Dependency.ofValue name (.table t) = .ok r'.toDependency ∧
          (r.toDependency == r'.toDependency) = true) ∧
    ∀ (origin : Origin) (target : String) (entries : Entries), origin.Forms target entries →
      ∀ t : Entries, t.Matches entries →
        Requirement.parse (name ++ " @ " ++ target) = .ok (Declared.plain name origin) ∧
          Dependency.ofValue name (.table t) = .ok (toDependency (Declared.plain name origin)) := by
  refine ⟨fun text range h t ht => ?_, fun origin target entries h t ht => ⟨?_, ?_⟩⟩
  · obtain ⟨range', hread, hclauses⟩ := Range.readRange_trim h
    have hparse : Requirement.parse (name ++ " " ++ text) =
        .ok (Declared.plain name (.registry range' none)) := by
      rw [parse_range hname h, hread]
      rfl
    have htable := ht.requirement name
    rw [requirement_range h] at htable
    refine ⟨_, Declared.plain name (.registry range none), hparse, ?_, ?_, ?_⟩
    · show (Requirement.ofText name text.toList).map toDependency = _
      rw [ofText_range hname h, hparse]
      rfl
    · show (Entries.requirement name t).map toDependency = _
      rw [htable]
      rfl
    · rw [beq_toDependency, beq_iff]
      refine ⟨rfl, rfl, rfl, rfl, rfl, ?_⟩
      show (range' == range && true) = true
      rw [Range.beq_of_clauses hclauses, Bool.and_true]
  · obtain ⟨hword, hplain⟩ := h.word
    obtain ⟨c, hhead, hc⟩ := h.head
    exact parse_target hname hword hplain hhead hc h.ofTarget
  · show (Entries.requirement name t).map toDependency = _
    rw [ht.requirement, h.requirement]
    rfl

/-- A range that is a bare version. -/
def bareVersion : Range where
  written := "1.2"
  clauses := [⟨.equal, "1.2", Version.ofRelease 0 [1, 2], false⟩]

/-- A linked project, with its flags in another order and its table in another one, and a bare version
between blanks. -/
theorem forms_agree_linked :
    Requirement.parse "kek @ ../kek#link&develop" =
        .ok (Declared.plain "kek" (.directory ⟨"../kek"⟩ true true)) ∧
      Dependency.ofValue "kek" (.table [("link", .boolean true), ("path", .string "../kek"),
        ("develop", .boolean true)]) =
          .ok (toDependency (Declared.plain "kek" (.directory ⟨"../kek"⟩ true true))) ∧
      Range.parse " 1.2 " = .ok bareVersion ∧
      ∃ r r' : Requirement, Requirement.parse "kek  1.2 " = .ok r ∧
        Dependency.ofValue "kek" (.string " 1.2 ") = .ok r.toDependency ∧
        Dependency.ofValue "kek" (.table [("version", .string " 1.2 ")]) = .ok r'.toDependency ∧
        (r.toDependency == r'.toDependency) = true := by
  have hrange : Range.parse " 1.2 " = .ok bareVersion := rfl
  obtain ⟨htexts, htargets⟩ := forms_agree "kek" (by decide)
  have hforms := @Origin.Forms.directory "../kek" ["link", "develop"] (by decide) (by decide)
    (by decide)
  have hmatches : Entries.Matches
      [("link", .boolean true), ("path", .string "../kek"), ("develop", .boolean true)]
      [("path", .string "../kek"), ("develop", .boolean true), ("link", .boolean true)] :=
    ⟨by simp [Entries.partKeys, Toml.lookup], by simp [Entries.flagKeys, Toml.lookup]⟩
  obtain ⟨hparse, htable⟩ := htargets _ _ _ hforms _ hmatches
  exact ⟨hparse, htable, hrange, htexts _ _ hrange _ ⟨fun _ _ => rfl, fun _ _ => rfl⟩⟩

end Requirement

end Requisite
