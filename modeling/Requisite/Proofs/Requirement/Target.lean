import Requisite.Proofs.Requirement.Reading

/-!
# Reading a written origin again

An origin is written as a target.  Reading trims the target, which loses the blanks that it ends in:
those of a location without a fragment, or of the commit that it is pinned to.  Nothing else is lost.

* `Origin.target` — an origin as it is written behind `@`;
* **`Path.same_trimEnd`** — a path without the blanks at its end is another path;
* **`Origin.ofTarget_target`** — an origin is read again if and only if its target ends in no blank.
-/

namespace Requisite

open Text Options

/-- A reference of the same kind to another commit. -/
def Reference.withValue : Reference → String → Reference
  | .rev _, value => .rev value
  | .branch _, value => .branch value
  | .tag _, value => .tag value

theorem Reference.withValue_eq_iff {r : Reference} {value : String} :
    r.withValue value = r ↔ value = r.value := by
  cases r <;> simp [withValue, Reference.value]

theorem startsWithAny_iff {starts : List String} {cs : List Char} :
    startsWithAny starts cs = true ↔ ∃ s ∈ starts, ∃ rest, cs = s.toList ++ rest := by
  simp only [startsWithAny, List.any_eq_true, startsWith, Option.isSome_iff_exists, after?_eq_some]

theorem blankless_pathStarts : ∀ s ∈ pathStarts, Blankless s.toList := by
  decide

/-! ### Paths -/

namespace Path

/-- The part behind the last slash is trimmed, and no part before it. -/
theorem segments_append {cs ds : List Char} (hds : '/' ∉ ds) :
    segments (cs ++ '/' :: ds) =
      segments cs ++ bif !ds.isEmpty && ds != ['.'] then [ds] else [] := by
  rw [segments, segments, List.splitOn_append_cons_self, splitOn_of_notMem hds, List.filter_append,
    List.filter_singleton]

/-- A text without the blanks at its end has other parts. -/
theorem segments_trimEnd {cs : List Char} (hslash : '/' ∈ cs)
    (h : segments (trimEnd cs) = segments cs) : Ended cs := by
  obtain ⟨b, a, hcs, hb⟩ := List.eq_append_cons_of_mem (List.mem_reverse.2 hslash)
  rw [← List.mem_reverse] at hb
  rw [← List.reverse_reverse cs, hcs, List.reverse_append, List.reverse_cons, List.append_assoc,
    List.singleton_append] at h ⊢
  generalize a.reverse = a at *
  generalize b.reverse = b at *
  have htrim : trimEnd (a ++ '/' :: b) = a ++ '/' :: trimEnd b := by
    have hcons : trimEnd ('/' :: b) = '/' :: trimEnd b := trimEnd_cons rfl b
    rw [trimEnd_append a (by rw [hcons]; exact List.cons_ne_nil _ _), hcons]
  have hsub : trimEnd b <+: b := by
    obtain ⟨c, hc, -⟩ := exists_blanks_trimEnd b
    exact ⟨c, hc.symm⟩
  rw [htrim, segments_append hb, segments_append fun hc => hb (hsub.subset hc)] at h
  have h := List.append_cancel_left h
  rw [ended_append (List.cons_ne_nil _ _)]
  by_cases hnil : b = []
  · rw [hnil]
    exact (by decide : Ended ['/'])
  rw [← List.singleton_append, ended_append hnil]
  -- A last part that ends in a blank is kept; if it is kept trimmed as well, it was trimmed before.
  by_contra hended
  have hkept : (!b.isEmpty && b != ['.']) = true := by
    have hdot : b ≠ ['.'] := by
      rintro rfl
      exact hended (by decide)
    simp [hnil, hdot]
  rw [hkept] at h
  cases hgood : (!(trimEnd b).isEmpty && trimEnd b != ['.']) with
  | false => rw [hgood] at h; nomatch h
  | true =>
    rw [hgood] at h
    exact hended (trimEnd_eq_self_iff.1 (List.singleton_inj.1 h))

/-- Trimming the end of a path changes its parts only as it changes those between slashes. -/
theorem parts_trimEnd {cs : List Char} (hpath : startsWithAny pathStarts cs = true)
    (h : parts ⟨String.ofList (trimEnd cs)⟩ = parts ⟨String.ofList cs⟩) :
    segments (trimEnd cs) = segments cs := by
  obtain ⟨s, hs, rest, rfl⟩ := startsWithAny_iff.1 hpath
  rw [trimEnd_word (blankless_pathStarts s hs)] at h ⊢
  simp only [pathStarts, List.mem_cons, List.not_mem_nil, or_false] at hs
  rcases hs with rfl | rfl | rfl
  · have h : ['/'] :: segments ('/' :: trimEnd rest) = ['/'] :: segments ('/' :: rest) := by
      simpa [parts] using h
    exact List.tail_eq_of_cons_eq h
  · have h : ['.'] :: segments ('.' :: '/' :: trimEnd rest) =
        ['.'] :: segments ('.' :: '/' :: rest) := by
      simpa [parts] using h
    exact List.tail_eq_of_cons_eq h
  · simpa [parts] using h

/-- A path without the blanks at its end is another path. -/
theorem same_trimEnd {cs : List Char} (hpath : startsWithAny pathStarts cs = true) :
    (⟨String.ofList (trimEnd cs)⟩ : Path) == ⟨String.ofList cs⟩ ↔ Ended cs := by
  show same _ _ = true ↔ _
  rw [same, beq_iff_eq]
  constructor
  · intro h
    refine segments_trimEnd ?_ (parts_trimEnd hpath h)
    obtain ⟨s, hs, rest, rfl⟩ := startsWithAny_iff.1 hpath
    have hslash : ∀ s ∈ pathStarts, '/' ∈ s.toList := by decide
    exact List.mem_append_left rest (hslash s hs)
  · intro h
    rw [trimEnd_eq_self_iff.2 h]

end Path

namespace Origin

/-- An origin as it is written behind `@`; nothing for an index. -/
def target : Origin → List Char
  | .registry _ _ => []
  | .repository url none => "git+".toList ++ url.toList
  | .repository url (some r) =>
    "git+".toList ++ url.toList ++ '#' :: (r.key.toList ++ '=' :: r.value.toList)
  | .directory path develop link => path.text.toList ++ flagChars develop link
  | .archive url => url.toList

theorem chars_eq {origin : Origin} (h : ∀ range index, origin ≠ .registry range index) :
    origin.chars = " @ ".toList ++ origin.target := by
  have hlead : ∀ cs, " @ git+".toList ++ cs = " @ ".toList ++ ("git+".toList ++ cs) := fun _ => rfl
  match origin, h with
  | .registry range index, h => exact absurd rfl (h range index)
  | .repository url none, _ => exact hlead url.toList
  | .repository url (some r), _ =>
    calc " @ git+".toList ++ url.toList ++ '#' :: r.key.toList ++ '=' :: r.value.toList
      _ = " @ git+".toList ++ (url.toList ++ '#' :: (r.key.toList ++ '=' :: r.value.toList)) := by
        simp only [List.append_assoc, List.cons_append]
      _ = " @ ".toList ++
          ("git+".toList ++ (url.toList ++ '#' :: (r.key.toList ++ '=' :: r.value.toList))) := hlead _
      _ = " @ ".toList ++ target (.repository url (some r)) :=
        congrArg (" @ ".toList ++ ·) (List.append_assoc _ _ _).symm
  | .directory path develop link, _ => exact List.append_assoc _ _ _
  | .archive url, _ => rfl

/-- The flags of a project are written as nothing or as a fragment that is read as they are. -/
theorem flagChars_eq (develop link : Bool) :
    (flagChars develop link = [] ∧ develop = false ∧ link = false) ∨
      ∃ fragment, flagChars develop link = '#' :: fragment ∧ Blankless fragment ∧ ';' ∉ fragment ∧
        (fragmentPairs fragment).any (fun (key, _) => key == "develop".toList) = develop ∧
        (fragmentPairs fragment).any (fun (key, _) => key == "link".toList) = link := by
  match develop, link with
  | true, true => exact Or.inr ⟨"develop&link".toList, by decide⟩
  | true, false => exact Or.inr ⟨"develop".toList, by decide⟩
  | false, true => exact Or.inr ⟨"link".toList, by decide⟩
  | false, false => exact Or.inl ⟨rfl, rfl, rfl⟩

/-- An origin is from an index or has a target. -/
theorem registry_or (origin : Origin) : (∃ range index, origin = .registry range index) ∨
    ∀ range index, origin ≠ .registry range index := by
  cases origin with
  | registry range index => exact Or.inl ⟨range, index, rfl⟩
  | _ => exact Or.inr nofun

/-- A target without a fragment. -/
theorem ofTarget_of_notMem {target : List Char} (h : '#' ∉ target) :
    ofTarget target =
      match after? "git+" target with
      | some url => .ok (.repository (String.ofList url) none, [])
      | none =>
        if startsWithAny pathStarts target then .ok (.directory ⟨String.ofList target⟩ false false, [])
        else if hasScheme target then .ok (.archive (String.ofList target), [])
        else .error (.targetUnknown (String.ofList target)) := by
  unfold ofTarget
  rw [cut_eq_none.2 h]
  rfl

/-- The parts of a text that starts with a scheme. -/
theorem hasScheme_iff {cs : List Char} : hasScheme cs = true ↔
    ∃ c w rest, cs = c :: (w ++ ':' :: rest) ∧ c.isAlpha = true ∧ w ≠ [] ∧
      ∀ d ∈ w, isSchemeChar d = true := by
  have hcolon : ¬isSchemeChar ':' = true := by decide
  constructor
  · intro h
    cases cs with
    | nil => nomatch h
    | cons c ds =>
      simp only [hasScheme, Bool.and_eq_true, Bool.not_eq_true', List.isEmpty_eq_false_iff,
        beq_iff_eq] at h
      obtain ⟨⟨hc, hne⟩, hhead⟩ := h
      obtain ⟨rest, hrest⟩ := List.head?_eq_some_iff.1 hhead
      refine ⟨c, ds.takeWhile isSchemeChar, rest, ?_, hc, hne, fun d hd => List.mem_takeWhile_imp hd⟩
      rw [← hrest, List.takeWhile_append_dropWhile]
  · rintro ⟨c, w, rest, rfl, hc, hne, hw⟩
    rw [hasScheme, List.takeWhile_append_of_pos hw, List.dropWhile_append_of_pos hw,
      List.takeWhile_cons_of_neg hcolon, List.dropWhile_cons_of_neg hcolon, List.append_nil, hc]
    simp [hne]

theorem isBlank_of_isSchemeChar {c : Char} (h : isSchemeChar c = true) : isBlank c = false := by
  simp only [isSchemeChar, Bool.or_eq_true, beq_iff_eq] at h
  rcases h with ((h | rfl) | rfl) | rfl
  · exact isBlank_of_isAlphanum h
  all_goals rfl

theorem isBlank_of_isAlpha {c : Char} (h : c.isAlpha = true) : isBlank c = false :=
  isBlank_of_isAlphanum (by rw [Char.isAlphanum, h, Bool.true_or])

theorem trim_of_hasScheme {cs : List Char} (h : hasScheme cs = true) :
    trim cs = trimEnd cs ∧ hasScheme (trimEnd cs) = true := by
  obtain ⟨c, w, rest, rfl, hc, hne, hw⟩ := hasScheme_iff.1 h
  have hword : ∀ d ∈ w, isBlank d = false := fun d hd => isBlank_of_isSchemeChar (hw d hd)
  rw [trim_cons (isBlank_of_isAlpha hc), trimEnd_cons (isBlank_of_isAlpha hc), trimEnd_word hword,
    trimEnd_cons rfl]
  exact ⟨rfl, hasScheme_iff.2 ⟨c, w, trimEnd rest, rfl, hc, hne, hw⟩⟩

/-- What a path starts with. -/
theorem exists_cons_of_startsWithAny {cs : List Char} (h : startsWithAny pathStarts cs = true) :
    ∃ c ds, cs = c :: ds ∧ (c = '/' ∨ c = '.') := by
  obtain ⟨s, hs, rest, rfl⟩ := startsWithAny_iff.1 h
  simp only [pathStarts, List.mem_cons, List.not_mem_nil, or_false] at hs
  rcases hs with rfl | rfl | rfl
  · exact ⟨'/', rest, rfl, Or.inl rfl⟩
  · exact ⟨'.', '/' :: rest, rfl, Or.inr rfl⟩
  · exact ⟨'.', '.' :: '/' :: rest, rfl, Or.inr rfl⟩

theorem not_startsWithAny_of_hasScheme {cs : List Char} (h : hasScheme cs = true) :
    startsWithAny pathStarts cs = false := by
  obtain ⟨c, w, rest, rfl, hc, -⟩ := hasScheme_iff.1 h
  rw [Bool.eq_false_iff]
  intro hpath
  obtain ⟨d, ds, heq, hd⟩ := exists_cons_of_startsWithAny hpath
  cases heq
  rcases hd with rfl | rfl <;> nomatch hc

theorem after?_git_of_startsWithAny {cs : List Char} (h : startsWithAny pathStarts cs = true) :
    after? "git+" cs = none := by
  rw [Option.eq_none_iff_forall_ne_some]
  intro rest hrest
  obtain ⟨c, ds, rfl, hc⟩ := exists_cons_of_startsWithAny h
  have hhead : c = 'g' := congrArg (fun cs => cs.headD 'g') (after?_eq_some.1 hrest)
  rcases hc with rfl | rfl <;> nomatch hhead

theorem trim_of_startsWithAny {cs : List Char} (h : startsWithAny pathStarts cs = true) :
    trim cs = trimEnd cs ∧ startsWithAny pathStarts (trimEnd cs) = true := by
  constructor
  · obtain ⟨c, ds, rfl, hc⟩ := exists_cons_of_startsWithAny h
    have hblank : isBlank c = false := by rcases hc with rfl | rfl <;> rfl
    rw [trim_cons hblank, trimEnd_cons hblank]
  · obtain ⟨s, hs, rest, rfl⟩ := startsWithAny_iff.1 h
    rw [trimEnd_word (blankless_pathStarts s hs)]
    exact startsWithAny_iff.2 ⟨s, hs, _, rfl⟩

theorem fragmentPairs_singleton {key value : List Char} (hkey : Without ['&', '='] key)
    (hvalue : '&' ∉ value) : fragmentPairs (key ++ '=' :: value) = [(key, value)] := by
  have hplain : '&' ∉ key ++ '=' :: value := by
    rw [List.mem_append, List.mem_cons, not_or, not_or]
    exact ⟨hkey '&' (by decide), by decide, hvalue⟩
  rw [fragmentPairs, splitOn_of_notMem hplain, List.filter_cons_of_pos (by simp), List.filter_nil,
    List.map_singleton, cut_append (hkey '=' (by decide))]
  rfl

theorem without_key (r : Reference) : Without ['&', '=', ';'] r.key.toList := by
  cases r with
  | rev v => show Without ['&', '=', ';'] "rev".toList; decide
  | branch v => show Without ['&', '=', ';'] "branch".toList; decide
  | tag v => show Without ['&', '=', ';'] "tag".toList; decide

/-- One selector is the reference. -/
theorem add_key (r : Reference) (value : List Char) :
    ∃ s, Selectors.none.add r.key.toList value = .ok s ∧
      s.reference = .ok (some (r.withValue (String.ofList value))) := by
  cases r with
  | rev v => exact ⟨{ Selectors.none with rev := some (String.ofList value) }, if_pos rfl, rfl⟩
  | branch v =>
    refine ⟨{ Selectors.none with branch := some (String.ofList value) }, ?_, rfl⟩
    exact (if_neg (show "branch".toList ≠ "rev".toList by decide)).trans (if_pos rfl)
  | tag v =>
    refine ⟨{ Selectors.none with tag := some (String.ofList value) }, ?_, rfl⟩
    exact (if_neg (show "tag".toList ≠ "rev".toList by decide)).trans
      ((if_neg (show "tag".toList ≠ "branch".toList by decide)).trans (if_pos rfl))

/-- A commit is read as it is selected. -/
theorem ofTarget_reference {url : List Char} (r : Reference) {value : List Char} (hurl : '#' ∉ url)
    (hvalue : '&' ∉ value) :
    ofTarget ("git+".toList ++ url ++ '#' :: (r.key.toList ++ '=' :: value)) =
      .ok (.repository (String.ofList url) (some (r.withValue (String.ofList value))), []) := by
  have hcut : cut '#' ("git+".toList ++ url ++ '#' :: (r.key.toList ++ '=' :: value)) =
      some ("git+".toList ++ url, r.key.toList ++ '=' :: value) := by
    refine cut_append ?_ _
    rw [List.mem_append, not_or]
    exact ⟨by decide, hurl⟩
  obtain ⟨selectors, hadd, hreference⟩ := add_key r value
  unfold ofTarget
  rw [hcut, Option.getD_some]
  dsimp only
  rw [fragmentPairs_singleton ((without_key r).of_subset (by decide)) hvalue, after?_eq_some.2 rfl]
  dsimp only
  rw [List.foldlM_cons, hadd]
  show (selectors.reference >>= fun reference => _) = _
  rw [hreference]
  rfl

/-- A path with a fragment is read as it is. -/
theorem ofTarget_directory {path : List Char} (hpath : startsWithAny pathStarts path = true)
    (hsign : '#' ∉ path) (fragment : List Char) :
    ofTarget (path ++ '#' :: fragment) =
      .ok (.directory ⟨String.ofList path⟩
        ((fragmentPairs fragment).any fun (key, _) => key == "develop".toList)
        ((fragmentPairs fragment).any fun (key, _) => key == "link".toList), []) := by
  unfold ofTarget
  rw [cut_append hsign, Option.getD_some]
  dsimp only
  rw [after?_git_of_startsWithAny hpath]
  dsimp only
  rw [if_pos hpath]

/-! ### Reading targets again -/

theorem trim_git (cs : List Char) : trim ("git+".toList ++ cs) = "git+".toList ++ trimEnd cs := by
  have hword : Blankless "it+".toList := by decide
  exact (trim_cons rfl _).trans (congrArg ('g' :: ·) (trimEnd_word hword cs))

/-- A fragment that does not end in a blank keeps the path before it from being trimmed. -/
theorem trim_fragment {path fragment : List Char} (hpath : startsWithAny pathStarts path = true)
    (hfragment : Ended fragment) :
    trim (path ++ '#' :: fragment) = path ++ '#' :: fragment ∧ Ended (path ++ '#' :: fragment) := by
  have hended : ∀ cs : List Char, Ended (cs ++ '#' :: fragment) := by
    intro cs
    have hsign : Ended (['#'] ++ fragment) := (ended_word (by decide)).2 hfragment
    exact (ended_append (List.cons_ne_nil _ _)).2 hsign
  obtain ⟨c, ds, rfl, hc⟩ := exists_cons_of_startsWithAny hpath
  have hblank : isBlank c = false := by rcases hc with rfl | rfl <;> rfl
  refine ⟨?_, hended _⟩
  rw [List.cons_append, trim_cons hblank, trimEnd_eq_self_iff.2 (hended ds)]

/-- A project is read again if its path does not end in a blank, or if it has flags. -/
theorem ofTarget_flags {path : Path} (develop link : Bool) (hplain : IsLocation path.text.toList)
    (hpath : startsWithAny pathStarts path.text.toList = true) :
    ∃ path', ofTarget (trim (target (.directory path develop link))) =
        .ok (.directory path' develop link, []) ∧
      ((path' == path) = true ↔ Ended (target (.directory path develop link))) := by
  have hsign := hplain.plain '#' (by decide)
  rcases flagChars_eq develop link with ⟨-, rfl, rfl⟩ | ⟨fragment, hchars, hword, -, hdevelop, hlink⟩
  · obtain ⟨htrim, hpath'⟩ := trim_of_startsWithAny hpath
    have htarget : target (.directory path false false) = path.text.toList := List.append_nil _
    refine ⟨⟨String.ofList (trimEnd path.text.toList)⟩, ?_, ?_⟩
    · rw [htarget, htrim, ofTarget_of_notMem (notMem_trimEnd hsign),
        after?_git_of_startsWithAny hpath']
      dsimp only
      rw [if_pos hpath']
    · have hsame := Path.same_trimEnd hpath
      rw [String.ofList_toList] at hsame
      rw [htarget, ← hsame]
  · obtain ⟨htrim, hended⟩ := trim_fragment hpath (ended_of_word hword)
    refine ⟨path, ?_, ?_⟩
    · rw [target, hchars, htrim, ofTarget_directory hpath hsign, hdevelop, hlink,
        String.ofList_toList]
    · rw [target, hchars]
      exact iff_of_true (beq_self_eq_true path.parts) hended

/-- An origin is read again if and only if its target ends in no blank. -/
theorem ofTarget_target {origin : Origin} (h : origin.Readable)
    (hindex : ∀ range index, origin ≠ .registry range index) :
    ∃ origin', ofTarget (trim origin.target) = .ok (origin', []) ∧
      ((origin' == origin) = true ↔ Ended origin.target) := by
  match origin, h, hindex with
  | .registry range index, _, h => exact absurd rfl (h range index)
  | .repository url none, ⟨hplain, _⟩, _ =>
    refine ⟨.repository (String.ofList (trimEnd url.toList)) none, ?_, ?_⟩
    · have hsign : '#' ∉ "git+".toList ++ trimEnd url.toList := by
        rw [List.mem_append, not_or]
        exact ⟨by decide, notMem_trimEnd (hplain.plain '#' (by decide))⟩
      rw [target, trim_git, ofTarget_of_notMem hsign, after?_eq_some.2 rfl]
    · show (String.ofList (trimEnd url.toList) == url && true) = true ↔ _
      rw [Bool.and_true, beq_iff_eq, ofList_trimEnd, target, ended_word (by decide)]
  | .repository url (some r), ⟨hplain, hr⟩, _ =>
    have hvalue := hr r rfl
    have hequal : trimEnd ('=' :: r.value.toList) = '=' :: trimEnd r.value.toList :=
      trimEnd_cons rfl _
    have hassoc : ∀ cs : List Char,
        "git+".toList ++ url.toList ++ '#' :: (r.key.toList ++ '=' :: cs) =
          "git+".toList ++ ((url.toList ++ '#' :: r.key.toList) ++ '=' :: cs) := by
      intro cs
      simp only [List.append_assoc, List.cons_append]
    have htrim : trim (target (.repository url (some r))) =
        "git+".toList ++ url.toList ++ '#' :: (r.key.toList ++ '=' :: trimEnd r.value.toList) := by
      rw [target, hassoc, trim_git, trimEnd_append _ (by rw [hequal]; exact List.cons_ne_nil _ _),
        hequal, ← hassoc]
    refine ⟨.repository url (some (r.withValue (String.ofList (trimEnd r.value.toList)))), ?_, ?_⟩
    · rw [htrim, ofTarget_reference r (hplain.plain '#' (by decide))
        (notMem_trimEnd (hvalue.plain '&' (by decide))), String.ofList_toList]
    · show (url == url && (r.withValue (String.ofList (trimEnd r.value.toList))) == r) = true ↔ _
      rw [BEq.rfl, Bool.true_and, beq_iff_eq, Reference.withValue_eq_iff, ofList_trimEnd, target,
        hassoc, ← List.append_assoc, ended_append (List.cons_ne_nil _ _), ← List.singleton_append,
        ended_word (by decide)]
  | .directory path develop link, ⟨hplain, hpath⟩, _ =>
    obtain ⟨path', hread, hsame⟩ := ofTarget_flags develop link hplain hpath
    refine ⟨.directory path' develop link, hread, ?_⟩
    rw [← hsame]
    show (path' == path && (develop == develop && link == link)) = true ↔ _
    rw [BEq.rfl, BEq.rfl, Bool.and_true, Bool.and_true]
  | .archive url, ⟨hplain, hscheme, hnot⟩, _ =>
    obtain ⟨htrim, hscheme'⟩ := trim_of_hasScheme hscheme
    refine ⟨.archive (String.ofList (trimEnd url.toList)), ?_, ?_⟩
    · rw [target, htrim, ofTarget_of_notMem (notMem_trimEnd (hplain.plain '#' (by decide))),
        after?_trimEnd hnot, not_startsWithAny_of_hasScheme hscheme', hscheme']
      rfl
    · show (String.ofList (trimEnd url.toList) == url) = true ↔ _
      rw [beq_iff_eq, ofList_trimEnd, target]

end Origin

end Requisite
