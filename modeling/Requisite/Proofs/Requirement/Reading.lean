import Requisite.Proofs.Name.Extras
import Requisite.Proofs.Range.Written
import Requisite.Proofs.Requirement.Selectors

/-!
# What reading a requirement leaves

Reading takes a text apart at its signs and takes its options out.  What it leaves has none of the
signs that it was taken apart at, and no option; the blanks inside its parts are kept.

* `Requirement.Readable` — the requirements that reading can leave;
* **`Requirement.readable_of_parse`** — every requirement that was read is one of them.
-/

namespace Requisite

open Text Options

/-- The text of an extra. -/
structure Name.IsExtra (cs : List Char) : Prop where
  ne_nil : cs ≠ []
  trimmed : trim cs = cs
  plain : Without ['[', ']', ',', ';', '@'] cs
  free : Free cs

/-- The text of a location, which ends where a fragment or a marker starts. -/
structure Origin.IsLocation (cs : List Char) : Prop where
  plain : Without ['#', ';'] cs
  free : Free cs

/-- The text of a selected commit. -/
structure Reference.IsValue (cs : List Char) : Prop where
  plain : Without ['&', ';'] cs
  free : Free cs

/-- The origins that reading can leave. -/
def Origin.Readable : Origin → Prop
  | .registry range index => index = none ∧ ∃ text, Range.parse text = .ok range
  | .repository url reference =>
    IsLocation url.toList ∧ ∀ r ∈ reference, Reference.IsValue r.value.toList
  | .directory path _ _ =>
    IsLocation path.text.toList ∧ startsWithAny pathStarts path.text.toList = true
  | .archive url =>
    IsLocation url.toList ∧ hasScheme url.toList = true ∧ after? "git+" url.toList = none

/-- The requirements that reading can leave. -/
structure Requirement.Readable (r : Requirement) : Prop where
  name : Name.isValid r.name.toList = true
  extras : ∀ e ∈ r.extras, Name.IsExtra e.toList
  python : r.python = none
  origin : r.subject.Readable
  markers : ∀ m ∈ r.markers, m.toList ≠ [] ∧ trim m.toList = m.toList ∧ Free m.toList
  hashes : ∀ h ∈ r.hashes, h.toList ≠ [] ∧ Free h.toList

/-! ### Names -/

namespace Name

theorem isBlank_of_isNameChar {c : Char} (h : isNameChar c = true) : isBlank c = false := by
  rw [isNameChar, Bool.or_eq_true] at h
  exact h.elim isBlank_of_isAlphanum isBlank_of_isSeparator

/-- What an entry of a bracket is. -/
structure IsEntry (cs e : List Char) : Prop where
  ne_nil : e ≠ []
  trimmed : trim e = e
  plain : Without ['[', ']', ','] e
  isInfix : e <:+: cs

theorem Bracketed.isEntry {cs head : List Char} {extras : List (List Char)}
    (h : Bracketed cs head extras) {e : List Char} (he : e ∈ extras) : IsEntry cs e := by
  cases h with
  | bare _ => nomatch he
  | @extended head blanks texts _ _ _ _ htexts =>
    obtain ⟨text, htext, rfl⟩ := List.mem_map.1 he
    refine ⟨(htexts text htext).ne_nil, trim_trim text,
      (htexts text htext).plain.of_isInfix (isInfix_trim text), (isInfix_trim text).trans ?_⟩
    exact (isInfix_intercalate ',' htext).trans ⟨head ++ blanks ++ ['['], [']'], by simp⟩

end Name

theorem of_readName {cs : List Char} {name : String} {extras : List String}
    (h : readName cs = .ok (name, extras)) (hfree : Free cs) (hplain : Without [';', '@'] cs) :
    Name.isValid name.toList = true ∧ ∀ e ∈ extras, Name.IsExtra e.toList := by
  obtain ⟨hname, hbracketed⟩ := readName_eq_ok_iff.1 h
  refine ⟨Name.isValid_iff.2 hname, fun e he => ?_⟩
  have hentry := hbracketed.isEntry (List.mem_map_of_mem he)
  have hin := hentry.isInfix.trans (isInfix_trim cs)
  exact ⟨hentry.ne_nil, hentry.trimmed, hentry.plain.and (hplain.of_isInfix hin),
    hfree.of_isInfix hin⟩

/-! ### Targets -/

theorem of_fragmentPairs {cs key value : List Char} (h : (key, value) ∈ fragmentPairs cs) :
    key <:+: cs ∧ value <:+: cs ∧ '&' ∉ value := by
  unfold fragmentPairs at h
  obtain ⟨pair, hpair, heq⟩ := List.mem_map.1 h
  have hmem := (List.mem_filter.1 hpair).1
  have hin := isInfix_of_mem_splitOn hmem
  have hplain := notMem_of_mem_splitOn hmem
  cases hcut : cut '=' pair with
  | none =>
    rw [hcut] at heq
    cases heq
    exact ⟨hin, List.nil_infix, nofun⟩
  | some parts =>
    rw [hcut] at heq
    cases heq
    have hpair := (cut_eq_some.1 hcut).1
    have hkey : key <:+: pair := ⟨[], '=' :: value, by rw [hpair]; rfl⟩
    have hvalue : value <:+: pair := ⟨key ++ ['='], [], by rw [hpair]; simp⟩
    exact ⟨hkey.trans hin, hvalue.trans hin, fun hc => hplain (hvalue.subset hc)⟩

/-- The hashes of a fragment are those of its pairs. -/
theorem of_fragmentHashes {pairs : List (List Char × List Char)} {hashes : List String}
    (h : fragmentHashes pairs = .ok hashes) {hash : String} (hhash : hash ∈ hashes) :
    ∃ pair ∈ pairs, hash.toList = pair.1 ++ ':' :: pair.2 := by
  induction pairs generalizing hashes with
  | nil => cases h; nomatch hhash
  | cons pair pairs ih =>
    unfold fragmentHashes at h
    split at h
    next => nomatch h
    next =>
      obtain ⟨hashes', hmore, rfl⟩ := Outcome.of_map h
      rcases List.mem_cons.1 hhash with rfl | hhash
      · exact ⟨pair, List.mem_cons_self .., String.toList_ofList⟩
      · obtain ⟨pair', hpair, heq⟩ := ih hmore hhash
        exact ⟨pair', List.mem_cons_of_mem _ hpair, heq⟩

/-- The location of a target, and the fragment. -/
theorem of_cut_fragment (target : List Char) :
    ((cut '#' target).getD (target, [])).1 <:+: target ∧
      ((cut '#' target).getD (target, [])).2 <:+: target ∧
      '#' ∉ ((cut '#' target).getD (target, [])).1 := by
  cases hcut : cut '#' target with
  | none => exact ⟨List.infix_rfl, List.nil_infix, cut_eq_none.1 hcut⟩
  | some parts =>
    obtain ⟨location, fragment⟩ := parts
    obtain ⟨rfl, hlocation⟩ := cut_eq_some.1 hcut
    exact ⟨⟨[], '#' :: fragment, rfl⟩, ⟨location ++ ['#'], [], by simp⟩, hlocation⟩

/-- The target of a repository is accepted as its selectors are. -/
theorem Origin.ofTarget_repository {target location fragment url : List Char}
    (hparts : (cut '#' target).getD (target, []) = (location, fragment))
    (hurl : after? "git+" location = some url) : ofTarget target =
      (Selectors.read (fragmentPairs fragment)).map fun reference =>
        (.repository (String.ofList url) reference, []) := by
  unfold ofTarget
  rw [hparts]
  dsimp only
  rw [hurl]
  show (Selectors.addAll (fragmentPairs fragment) Selectors.none >>= _) = _
  unfold Selectors.read
  cases Selectors.addAll (fragmentPairs fragment) Selectors.none with
  | error fault => rfl
  | ok selectors =>
    show (selectors.reference >>= _) = selectors.reference.map _
    cases selectors.reference <;> rfl

/-- What a target denotes: a repository, a directory or an archive. -/
theorem Origin.of_ofTarget {target location fragment : List Char} {origin : Origin}
    {hashes : List String} (hparts : (cut '#' target).getD (target, []) = (location, fragment))
    (h : ofTarget target = .ok (origin, hashes)) :
    (∃ url reference, after? "git+" location = some url ∧
        Selectors.read (fragmentPairs fragment) = .ok reference ∧
        origin = .repository (String.ofList url) reference ∧ hashes = []) ∨
      after? "git+" location = none ∧
        ((startsWithAny pathStarts location = true ∧
            (∃ develop link, origin = .directory ⟨String.ofList location⟩ develop link) ∧
            hashes = []) ∨
          (hasScheme location = true ∧ fragmentHashes (fragmentPairs fragment) = .ok hashes ∧
            origin = .archive (String.ofList location))) := by
  cases hurl : after? "git+" location with
  | some url =>
    rw [ofTarget_repository hparts hurl] at h
    obtain ⟨reference, hread, heq⟩ := Outcome.of_map h
    cases heq
    exact Or.inl ⟨url, reference, rfl, hread, rfl, rfl⟩
  | none =>
    refine Or.inr ⟨rfl, ?_⟩
    unfold ofTarget at h
    rw [hparts] at h
    dsimp only at h
    rw [hurl] at h
    dsimp only at h
    split at h
    next hpath =>
      cases h
      exact Or.inl ⟨hpath, ⟨_, _, rfl⟩, rfl⟩
    next =>
      split at h
      next hscheme =>
        obtain ⟨hashes', hhashes, heq⟩ := Outcome.of_map h
        cases heq
        exact Or.inr ⟨hscheme, hhashes, rfl⟩
      next => cases h

/-- What a target denotes can be read, if the target has neither options nor markers. -/
theorem readable_of_ofTarget {target : List Char} {origin : Origin} {hashes : List String}
    (h : Origin.ofTarget target = .ok (origin, hashes)) (hfree : Free target)
    (hplain : ';' ∉ target) :
    origin.Readable ∧ ∀ hash ∈ hashes, hash.toList ≠ [] ∧ Free hash.toList := by
  obtain ⟨hlocation, hfragment, hsign⟩ := of_cut_fragment target
  cases hparts : (cut '#' target).getD (target, []) with
  | mk location fragment =>
    rw [hparts] at hlocation hfragment hsign
    have hwithout : Origin.IsLocation location := by
      refine ⟨?_, hfree.of_isInfix hlocation⟩
      simp only [without_cons, without_nil, and_true]
      exact ⟨hsign, fun hc => hplain (hlocation.subset hc)⟩
    rcases Origin.of_ofTarget hparts h with ⟨url, reference, hurl, hread, rfl, rfl⟩ |
      ⟨hurl, ⟨hpath, ⟨develop, link, rfl⟩, rfl⟩ | ⟨hscheme, hhashes, rfl⟩⟩
    · have hin : url <:+: location := ⟨"git+".toList, [], by rw [after?_eq_some.1 hurl]; simp⟩
      refine ⟨⟨?_, fun r hr => ?_⟩, List.forall_mem_nil _⟩
      · rw [String.toList_ofList]
        exact ⟨hwithout.plain.of_isInfix hin, hwithout.free.of_isInfix hin⟩
      · obtain ⟨⟨key, value⟩, hpair, hvalue⟩ := Selectors.exists_entry_of_read hread hr
        obtain ⟨-, hin, hsign⟩ := of_fragmentPairs hpair
        have hin := hin.trans hfragment
        rw [hvalue, String.toList_ofList]
        refine ⟨?_, hfree.of_isInfix hin⟩
        simp only [without_cons, without_nil, and_true]
        exact ⟨hsign, fun hc => hplain (hin.subset hc)⟩
    · refine ⟨⟨?_, ?_⟩, List.forall_mem_nil _⟩
      · rwa [String.toList_ofList]
      · rwa [String.toList_ofList]
    · refine ⟨⟨?_, ?_, ?_⟩, fun hash hhash => ?_⟩
      · rwa [String.toList_ofList]
      · rwa [String.toList_ofList]
      · rwa [String.toList_ofList]
      · obtain ⟨⟨algorithm, digest⟩, hpair, heq⟩ := of_fragmentHashes hhashes hhash
        obtain ⟨halgorithm, hdigest, -⟩ := of_fragmentPairs hpair
        rw [heq]
        refine ⟨fun h => by simp at h, ?_⟩
        exact (hfree.of_isInfix (halgorithm.trans hfragment)).append_cons
          (isSign_of_mem ':' (by decide)) (hfree.of_isInfix (hdigest.trans hfragment))

/-! ### Requirements -/

/-- A name and a target denote a requirement if both can be read. -/
theorem readTarget_eq_ok_iff {input name target : List Char} {r : Requirement} :
    readTarget input name target = .ok r ↔ ∃ name' extras origin hashes,
      readName name = .ok (name', extras) ∧ Origin.ofTarget (trim target) = .ok (origin, hashes) ∧
        r = { Declared.plain name' origin with extras, hashes } := by
  unfold readTarget
  constructor
  · intro h
    obtain ⟨⟨name', extras⟩, hname, h⟩ := Outcome.of_bind h
    obtain ⟨⟨origin, hashes⟩, horigin, h⟩ := Outcome.of_bind h
    exact ⟨name', extras, origin, hashes, hname, Outcome.of_mapError horigin, (Except.ok.inj h).symm⟩
  · rintro ⟨name', extras, origin, hashes, hname, horigin, rfl⟩
    rw [hname, horigin]
    rfl

/-- A head without a target denotes a requirement if its name and its range can be read. -/
theorem readRegistry_eq_ok_iff {input head : List Char} {r : Requirement} :
    readRegistry input head = .ok r ↔ ∃ nameText rest name extras body range,
      nameAndRest? head = some (nameText, rest) ∧ readName nameText = .ok (name, extras) ∧
        (rest.contains '[' || rest.contains ']') = false ∧ unwrap rest = .ok body ∧
          readRange body = .ok range ∧
            r = { Declared.plain name (Origin.registry range none) with extras } := by
  unfold readRegistry
  constructor
  · intro h
    cases hrest : nameAndRest? head with
    | none =>
      rw [hrest] at h
      cases h
    | some parts =>
      obtain ⟨nameText, rest⟩ := parts
      rw [hrest] at h
      obtain ⟨⟨name, extras⟩, hname, h⟩ := Outcome.of_bind h
      dsimp only at h
      split at h
      next => cases h
      next hplain =>
        obtain ⟨body, hbody, h⟩ := Outcome.of_bind h
        obtain ⟨range, hrange, h⟩ := Outcome.of_bind h
        exact ⟨nameText, rest, name, extras, body, range, rfl, hname, by simpa using hplain,
          Outcome.of_mapError hbody, hrange, (Except.ok.inj h).symm⟩
  · rintro ⟨nameText, rest, name, extras, body, range, hrest, hname, hplain, hbody, hrange, rfl⟩
    rw [hrest]
    dsimp only
    rw [hname]
    show (if _ then _ else _) = _
    rw [hplain, if_neg Bool.false_ne_true, hbody]
    show (readRange body >>= _) = _
    rw [hrange]
    rfl

theorem readable_of_readTarget {input name target : List Char} {r : Requirement}
    (h : readTarget input name target = .ok r) (hname : Free name)
    (hnamePlain : Without [';', '@'] name) (htarget : Free target) (htargetPlain : ';' ∉ target) :
    r.Readable := by
  obtain ⟨name', extras, origin, hashes, hread, horigin, rfl⟩ := readTarget_eq_ok_iff.1 h
  obtain ⟨hvalid, hextras⟩ := of_readName hread hname hnamePlain
  have hin := isInfix_trim target
  obtain ⟨hreadable, hhashes⟩ := readable_of_ofTarget horigin (htarget.of_isInfix hin)
    (fun hc => htargetPlain (hin.subset hc))
  exact ⟨hvalid, hextras, rfl, hreadable, nofun, hhashes⟩

/-- The name of a registry requirement with its brackets has what the requirement has. -/
theorem of_nameAndRest? {cs name rest : List Char} (h : nameAndRest? cs = some (name, rest))
    (hfree : Free cs) : Free name ∧ name ⊆ cs := by
  have hname : Blankless (cs.takeWhile Name.isNameChar) :=
    fun c hc => Name.isBlank_of_isNameChar (List.mem_takeWhile_imp hc)
  have hlead : cs.takeWhile Name.isNameChar ⊆ cs := (List.takeWhile_prefix _).subset
  have hsuffix : trimStart (cs.dropWhile Name.isNameChar) <:+ cs :=
    (List.dropWhile_suffix _).trans (List.dropWhile_suffix _)
  unfold nameAndRest? at h
  dsimp only at h
  split at h
  next =>
    obtain ⟨⟨bracket, after⟩, hcut, heq⟩ := Option.map_eq_some_iff.1 h
    cases heq
    have hin : bracket ++ [']'] <:+: cs := by
      refine List.IsInfix.trans ?_ hsuffix.isInfix
      rw [(cut_eq_some.1 hcut).1]
      exact ⟨[], after, by simp⟩
    rw [List.append_assoc]
    exact ⟨(hfree.of_isInfix hin).of_word hname, List.append_subset.2 ⟨hlead, hin.subset⟩⟩
  next =>
    cases h
    exact ⟨free_of_word hname, hlead⟩

theorem readable_of_readRegistry {input head : List Char} {r : Requirement}
    (h : readRegistry input head = .ok r) (hfree : Free head) (hplain : Without [';', '@'] head) :
    r.Readable := by
  obtain ⟨nameText, rest, name, extras, body, range, hrest, hread, -, -, hrange, rfl⟩ :=
    readRegistry_eq_ok_iff.1 h
  obtain ⟨hname, hsub⟩ := of_nameAndRest? hrest hfree
  obtain ⟨hvalid, hextras⟩ := of_readName hread hname fun c hc hmem => hplain c hc (hsub hmem)
  exact ⟨hvalid, hextras, rfl, ⟨rfl, Range.parse_of_readRange hrange⟩, nofun, nofun⟩

namespace Options

/-- The options that are accepted are hashes with a value. -/
theorem of_hashes {os : List (List Char × List Char)} {hs : List String}
    (h : hashes os = .ok hs) :
    os = hs.map (fun h => ("hash".toList, h.toList)) ∧ ∀ h ∈ hs, h.toList ≠ [] := by
  induction os generalizing hs with
  | nil => cases h; exact ⟨rfl, nofun⟩
  | cons o os ih =>
    obtain ⟨name, value⟩ := o
    rw [hashes] at h
    split at h
    next => nomatch h
    next hname =>
      split at h
      next => nomatch h
      next hvalue =>
        obtain ⟨hs', hmore, rfl⟩ := Outcome.of_map h
        obtain ⟨rfl, hne⟩ := ih hmore
        have hlist : (String.ofList value).toList = value := String.toList_ofList
        refine ⟨?_, List.forall_mem_cons.2 ⟨fun hnil => hvalue ?_, hne⟩⟩
        · rw [List.map_cons, hlist, not_not.1 hname]
        · rw [← hlist, hnil]
          rfl

theorem hashes_map {hs : List String} (h : ∀ h ∈ hs, h.toList ≠ []) :
    hashes (hs.map fun h => ("hash".toList, h.toList)) = .ok hs := by
  induction hs with
  | nil => rfl
  | cons hash hs ih =>
    obtain ⟨hne, h⟩ := List.forall_mem_cons.1 h
    rw [List.map_cons, hashes, if_neg (fun hname => hname rfl), if_neg (by simpa using hne), ih h,
      String.ofList_toList]
    rfl

end Options

/-- The text before a marker and the marker. -/
def Requirement.headAndMarkers (text : List Char) : List Char × Option String :=
  match cut ';' text with
  | some (head, markers) => (trim head, readMarkers markers)
  | none => (trim text, none)

/-- The requirement that a text without marker and options denotes. -/
def Requirement.readHead (input head : List Char) : Except DependencyError Requirement :=
  match cut '@' head with
  | some (name, target) => readTarget input name target
  | none => readRegistry input head

/-- A requirement is read from options, a head and a marker. -/
theorem Requirement.read_eq (cs : List Char) :
    Requirement.read cs =
      if startsWithAny targetStarts (trim cs) then
        .error (.invalid (String.ofList (trim cs)) .bareTarget)
      else (do
        let hashes ← (Options.hashes (split (trim cs)).1).mapError (.invalid (String.ofList (trim cs)))
        let r ← readHead (trim cs) (headAndMarkers (split (trim cs)).2).1
        .ok { r with
          markers := (headAndMarkers (split (trim cs)).2).2, hashes := hashes ++ r.hashes }) := by
  unfold Requirement.read readHead headAndMarkers
  dsimp only
  split
  next => rfl
  next =>
    congr 1
    funext hashes
    cases cut ';' (split (trim cs)).2 with
    | none =>
      dsimp only
      cases cut '@' (trim (split (trim cs)).2) <;> rfl
    | some parts =>
      dsimp only
      cases cut '@' (trim parts.1) <;> rfl

/-- A trimmed text without options is read from its head and its marker. -/
theorem Requirement.read_of_free {cs head : List Char} {markers : Option String} {d : Requirement}
    (htrim : trim cs = cs) (hbare : startsWithAny targetStarts cs = false) (hfree : Free cs)
    (hparts : headAndMarkers cs = (head, markers)) (hread : readHead cs head = .ok d) :
    Requirement.read cs = .ok { d with markers } := by
  rw [read_eq, htrim, hbare, if_neg Bool.false_ne_true, split_of_free hfree, hparts]
  show (readHead cs head >>= fun d => _) = _
  rw [hread]
  rfl

/-- What a requirement was read from. -/
theorem Requirement.of_read {cs : List Char} {r : Requirement} (h : Requirement.read cs = .ok r) :
    ∃ hs d, Options.hashes (split (trim cs)).1 = .ok hs ∧
      readHead (trim cs) (headAndMarkers (split (trim cs)).2).1 = .ok d ∧
        r = { d with
          markers := (headAndMarkers (split (trim cs)).2).2, hashes := hs ++ d.hashes } := by
  rw [read_eq] at h
  split at h
  next => nomatch h
  next =>
    obtain ⟨hs, hhashes, h⟩ := Outcome.of_bind h
    obtain ⟨d, hd, h⟩ := Outcome.of_bind h
    exact ⟨hs, d, Outcome.of_mapError hhashes, hd, (Except.ok.inj h).symm⟩

/-- A text without options falls into a head without options and markers, and a marker. -/
theorem Requirement.of_headAndMarkers {text : List Char} (h : Free text) :
    Free (headAndMarkers text).1 ∧ ';' ∉ (headAndMarkers text).1 ∧
      ∀ m ∈ (headAndMarkers text).2, m.toList ≠ [] ∧ trim m.toList = m.toList ∧ Free m.toList := by
  unfold headAndMarkers
  split
  next head markers hcut =>
    obtain ⟨rfl, hplain⟩ := cut_eq_some.1 hcut
    obtain ⟨hhead, hmarkers⟩ := h.of_append
    refine ⟨hhead.of_isInfix (isInfix_trim head), fun hc => hplain ((isInfix_trim head).subset hc),
      fun m hm => ?_⟩
    unfold readMarkers at hm
    dsimp only at hm
    split at hm
    next => nomatch hm
    next hne =>
      obtain rfl := Option.mem_some_iff.1 hm
      rw [String.toList_ofList]
      exact ⟨fun hnil => hne (by rw [hnil]; rfl), trim_trim markers,
        hmarkers.2.of_isInfix (isInfix_trim markers)⟩
  next hcut =>
    exact ⟨h.of_isInfix (isInfix_trim text),
      fun hc => cut_eq_none.1 hcut ((isInfix_trim text).subset hc), nofun⟩

theorem Requirement.readable_of_readHead {input head : List Char} {d : Requirement}
    (h : readHead input head = .ok d) (hfree : Free head) (hplain : ';' ∉ head) : d.Readable := by
  unfold readHead at h
  split at h
  next name target hcut =>
    obtain ⟨rfl, hat⟩ := cut_eq_some.1 hcut
    obtain ⟨hname, htarget⟩ := hfree.of_append
    rw [List.mem_append, List.mem_cons, not_or, not_or] at hplain
    refine readable_of_readTarget h hname ?_ htarget.2 hplain.2.2
    simp only [without_cons, without_nil, and_true]
    exact ⟨hplain.1, hat⟩
  next hcut =>
    refine readable_of_readRegistry h hfree ?_
    simp only [without_cons, without_nil, and_true]
    exact ⟨hplain, cut_eq_none.1 hcut⟩

/-- Every requirement that was read is readable. -/
theorem Requirement.readable_of_parse {text : String} {r : Requirement}
    (h : Requirement.parse text = .ok r) : r.Readable := by
  obtain ⟨hs, d, hhashes, hd, rfl⟩ := Requirement.of_read h
  obtain ⟨hhead, hplain, hmarkers⟩ := of_headAndMarkers (free_split (trim text.toList))
  have hreadable := readable_of_readHead hd hhead hplain
  obtain ⟨hoptions, hne⟩ := Options.of_hashes hhashes
  refine ⟨hreadable.name, hreadable.extras, hreadable.python, hreadable.origin, hmarkers,
    fun hash hhash => ?_⟩
  rcases List.mem_append.1 hhash with hhash | hhash
  · have hmem : ("hash".toList, hash.toList) ∈ (split (trim text.toList)).1 := by
      rw [hoptions]
      exact List.mem_map_of_mem hhash
    exact ⟨hne hash hhash, free_of_word (isBlank_of_mem_split hmem)⟩
  · exact hreadable.hashes hash hhash

end Requisite
