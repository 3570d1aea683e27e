import Requisite.Proofs.Requirement.Writing

/-!
# Options at every boundary

Options are taken out of a text before it is taken apart, and one that is taken out leaves the text as
if it had not been written there.  So it does not matter at which blank of a requirement a hash is
written: behind the name, within the brackets, the range or the marker, or at the end.

* `Options.given` — the values of the options that stand in a text;
* **`Requirement.read_eq_ok_iff`** — the options, the head and the marker that a requirement is read
  from, whatever a refusal would have named;
* **`Requirement.parse_insert_hash`** — a hash that is written at a blank is added to the requirement,
  behind the hashes of the options before it, and nothing else changes.
-/

namespace Requisite

open Text Options

/-! ### The start of a text -/

namespace Text

/-- Blanks are trimmed off the start of a text only as far as its first character that is none. -/
theorem trimStart_append {cs : List Char} (h : trim cs ≠ []) (ds : List Char) :
    trimStart (cs ++ ds) = trimStart cs ++ ds := by
  unfold trimStart
  rw [List.dropWhile_append, if_neg]
  intro hempty
  apply h
  rw [trim, trimStart, List.isEmpty_iff.1 hempty]
  rfl

end Text

theorem blankless_targetStarts : ∀ s ∈ targetStarts, Blankless s.toList := by
  decide

/-- What a text starts with is a matter of its first word. -/
theorem startsWith_append {s : String} (hs : Blankless s.toList) (cs : List Char) {ds : List Char}
    (h : Parted ds) : startsWith s (cs ++ ds) = startsWith s cs := by
  rw [Bool.eq_iff_iff]
  simp only [startsWith, Option.isSome_iff_exists, after?_eq_some]
  constructor
  · rintro ⟨rest, hrest⟩
    rcases List.append_eq_append_iff.1 hrest with ⟨q, hq, hds⟩ | ⟨q, hq, -⟩
    · cases q with
      | nil => exact ⟨[], by simpa using hq.symm⟩
      | cons c q =>
        have hblank := h c (by simp [hds])
        exact absurd ((hs c (by simp [hq])).symm.trans hblank) Bool.false_ne_true
    · exact ⟨q, hq⟩
  · rintro ⟨rest, rfl⟩
    exact ⟨rest ++ ds, by simp⟩

theorem startsWithAny_append (cs : List Char) {ds : List Char} (h : Parted ds) :
    startsWithAny targetStarts (cs ++ ds) = startsWithAny targetStarts cs := by
  rw [Bool.eq_iff_iff]
  simp only [startsWithAny, List.any_eq_true]
  refine exists_congr fun s => and_congr_right fun hs => ?_
  rw [startsWith_append (blankless_targetStarts s hs) cs h]

/-! ### The options of a text -/

namespace Options

/-- The values of the options that stand in a text, in their order. -/
def given (text : String) : List String :=
  (split (trim text.toList)).1.map fun o => String.ofList o.2

/-- An option behind a blank is taken out. -/
theorem split_hash_append {v ds : List Char} (hv : Blankless v) (h : Parted ds) :
    split (" --hash=".toList ++ v ++ ds) = (("hash".toList, v) :: (split ds).1, (split ds).2) := by
  have hoption : option? ("--hash=".toList ++ v ++ ds) = some (("hash".toList, v), ds) := by
    apply option?_eq_some.2
    exact ⟨by simp, by decide, by decide, hv, h⟩
  show split (' ' :: ("--hash=".toList ++ v ++ ds)) = _
  exact split_of_option rfl hoption

/-- The hashes of one list of options after those of another. -/
theorem hashes_append (os os' : List (List Char × List Char)) :
    hashes (os ++ os') = hashes os >>= fun as => (hashes os').map (as ++ ·) := by
  induction os with
  | nil => cases h : hashes os' <;> simp [hashes, h] <;> rfl
  | cons o os ih =>
    obtain ⟨name, value⟩ := o
    rw [List.cons_append, hashes, hashes, ih]
    split
    next => rfl
    next =>
      split
      next => rfl
      next => cases hashes os <;> cases hashes os' <;> rfl

theorem hashes_cons {v : List Char} (hv : v ≠ []) (os : List (List Char × List Char)) :
    hashes (("hash".toList, v) :: os) = (hashes os).map (String.ofList v :: ·) := by
  rw [hashes, if_neg (by simp), if_neg (by simpa using hv)]

/-- The hashes are the values of the options. -/
theorem eq_map_of_hashes {os : List (List Char × List Char)} {hs : List String}
    (h : hashes os = .ok hs) : hs = os.map fun o => String.ofList o.2 := by
  rw [(of_hashes h).1]
  simp [Function.comp_def]

end Options

/-! ### What a requirement is read from -/

namespace Requirement

/-- What a head denotes does not depend on the text that a refusal names. -/
theorem readHead_congr {input head : List Char} {d : Requirement} (input' : List Char)
    (h : readHead input head = .ok d) : readHead input' head = .ok d := by
  unfold readHead at h ⊢
  split at h
  next => exact readTarget_eq_ok_iff.2 (readTarget_eq_ok_iff.1 h)
  next => exact readRegistry_eq_ok_iff.2 (readRegistry_eq_ok_iff.1 h)

/-- A requirement is read from the options, the head and the marker of a text.  The blanks before the
text count for nothing, and those behind it fall away with the head or the marker. -/
theorem read_eq_ok_iff {cs : List Char} {r : Requirement} : Requirement.read cs = .ok r ↔
    startsWithAny targetStarts (trimStart cs) = false ∧
      ∃ hs d, Options.hashes (split (trimStart cs)).1 = .ok hs ∧
        readHead [] (headAndMarkers (split (trimStart cs)).2).1 = .ok d ∧
          r = { d with
            markers := (headAndMarkers (split (trimStart cs)).2).2, hashes := hs ++ d.hashes } := by
  obtain ⟨hoptions, hparts⟩ := split_trimEnd (trimStart cs)
  have hstart : startsWithAny targetStarts (trim cs) = startsWithAny targetStarts (trimStart cs) := by
    obtain ⟨b, hb, hblank⟩ := exists_blanks_trimEnd (trimStart cs)
    conv => rhs; rw [hb]
    exact (startsWithAny_append _ fun c hc => hblank c (List.mem_of_mem_head? hc)).symm
  rw [← hstart, ← hoptions, ← hparts]
  show _ ↔ _ ∧ ∃ hs d, Options.hashes (split (trim cs)).1 = .ok hs ∧
    readHead [] (headAndMarkers (split (trim cs)).2).1 = .ok d ∧
      r = { d with markers := (headAndMarkers (split (trim cs)).2).2, hashes := hs ++ d.hashes }
  constructor
  · intro h
    obtain ⟨hs, d, hhashes, hd, heq⟩ := of_read h
    refine ⟨?_, hs, d, hhashes, readHead_congr [] hd, heq⟩
    rw [read_eq] at h
    split at h
    next => nomatch h
    next hbare => simpa using hbare
  · rintro ⟨hbare, hs, d, hhashes, hd, rfl⟩
    rw [read_eq, hbare, if_neg Bool.false_ne_true, hhashes]
    show (readHead (trim cs) _ >>= fun d => _) = _
    rw [readHead_congr (trim cs) hd]
    rfl

/-- A text in two parts, with a blank between them: the options are those of both, and the head and the
marker are read from what is left of both. -/
theorem read_append_eq_ok_iff {cs ds : List Char} (hcs : trim cs ≠ []) (hds : Parted ds)
    {r : Requirement} : Requirement.read (cs ++ ds) = .ok r ↔
      startsWithAny targetStarts (trimStart cs) = false ∧
        ∃ hs hs' d, Options.hashes (split (trimStart cs)).1 = .ok hs ∧
          Options.hashes (split ds).1 = .ok hs' ∧
          readHead [] (headAndMarkers ((split (trimStart cs)).2 ++ (split ds).2)).1 = .ok d ∧
            r = { d with
              markers := (headAndMarkers ((split (trimStart cs)).2 ++ (split ds).2)).2
              hashes := hs ++ (hs' ++ d.hashes) } := by
  rw [read_eq_ok_iff, trimStart_append hcs, startsWithAny_append _ hds, split_append _ hds,
    hashes_append]
  apply and_congr_right
  intro hbare
  constructor
  · rintro ⟨hs, d, hhashes, hd, rfl⟩
    obtain ⟨as, has, hhashes⟩ := Outcome.of_bind hhashes
    obtain ⟨bs, hbs, rfl⟩ := Outcome.of_map hhashes
    exact ⟨as, bs, d, has, hbs, hd, by simp⟩
  · rintro ⟨as, bs, d, has, hbs, hd, rfl⟩
    refine ⟨as ++ bs, d, ?_, hd, by simp⟩
    rw [has, hbs]
    rfl

/-- A hash that is written at a blank of a requirement, or at its end, is added to the hashes: behind
those of the options before it, and before all others.  Nothing else changes, and a text is accepted
with the hash exactly if it is accepted without it. -/
theorem parse_insert_hash (u v w : String) (hu : trim u.toList ≠ []) (hne : v.toList ≠ [])
    (hv : Blankless v.toList) (hw : Parted w.toList) :
    (∀ r, Requirement.parse (u ++ w) = .ok r → ∃ rest, r.hashes = given u ++ rest ∧
      Requirement.parse (u ++ " --hash=" ++ v ++ w) =
        .ok { r with hashes := given u ++ v :: rest }) ∧
    ((∃ r, Requirement.parse (u ++ " --hash=" ++ v ++ w) = .ok r) ↔
      ∃ r, Requirement.parse (u ++ w) = .ok r) := by
  have hgiven : ∀ hs, Options.hashes (split (trimStart u.toList)).1 = .ok hs → hs = given u := by
    intro hs hhashes
    rw [eq_map_of_hashes hhashes, given, ← (split_trimEnd (trimStart u.toList)).1]
    rfl
  have hwithout : Requirement.parse (u ++ w) = Requirement.read (u.toList ++ w.toList) := by
    rw [Requirement.parse, String.toList_append]
  have hwith : Requirement.parse (u ++ " --hash=" ++ v ++ w) =
      Requirement.read (u.toList ++ (" --hash=".toList ++ v.toList ++ w.toList)) := by
    simp only [Requirement.parse, String.toList_append, List.append_assoc]
  have hparted : Parted (" --hash=".toList ++ v.toList ++ w.toList) := parted_cons rfl _
  simp only [hwithout, hwith, read_append_eq_ok_iff hu hw, read_append_eq_ok_iff hu hparted,
    split_hash_append hv hw, hashes_cons hne, String.ofList_toList]
  refine ⟨?_, ?_, ?_⟩
  · rintro r ⟨hbare, hs, hs', d, hhashes, hhashes', hd, rfl⟩
    refine ⟨hs' ++ d.hashes, by rw [hgiven hs hhashes], hbare, hs, v :: hs', d, hhashes, ?_, hd, ?_⟩
    · rw [hhashes']
      rfl
    · rw [hgiven hs hhashes]
      rfl
  · rintro ⟨r, hbare, hs, hs', d, hhashes, hhashes', hd, -⟩
    obtain ⟨hs'', hhashes'', -⟩ := Outcome.of_map hhashes'
    exact ⟨_, hbare, hs, hs'', d, hhashes, hhashes'', hd, rfl⟩
  · rintro ⟨r, hbare, hs, hs', d, hhashes, hhashes', hd, -⟩
    refine ⟨_, hbare, hs, v :: hs', d, hhashes, ?_, hd, rfl⟩
    rw [hhashes']
    rfl

/-- A hash within a marker, with others before it, behind it and in the fragment of the URL. -/
theorem parse_insert_hash_marker :
    ∃ r, Requirement.parse ("kek --hash=a:1 @ https://e.com/x#md5=4; os_name" ++
        " == --hash=c:3 'nt'") = .ok r ∧
      r.markers = some "os_name == 'nt'" ∧ r.hashes = ["a:1", "c:3", "md5:4"] ∧
      Requirement.parse ("kek --hash=a:1 @ https://e.com/x#md5=4; os_name" ++ " --hash=" ++ "b:2" ++
        " == --hash=c:3 'nt'") = .ok { r with hashes := ["a:1", "b:2", "c:3", "md5:4"] } := by
  have hread : (Requirement.parse ("kek --hash=a:1 @ https://e.com/x#md5=4; os_name" ++
      " == --hash=c:3 'nt'")).toOption.map (fun r => (r.markers, r.hashes)) =
        some (some "os_name == 'nt'", ["a:1", "c:3", "md5:4"]) := by
    decide +kernel
  have hgiven : given "kek --hash=a:1 @ https://e.com/x#md5=4; os_name" = ["a:1"] := by
    decide +kernel
  have hinsert := (parse_insert_hash "kek --hash=a:1 @ https://e.com/x#md5=4; os_name" "b:2"
    " == --hash=c:3 'nt'" (by decide +kernel) (by decide) (by decide) (parted_cons rfl _)).1
  rw [hgiven] at hinsert
  cases hparse : Requirement.parse ("kek --hash=a:1 @ https://e.com/x#md5=4; os_name" ++
      " == --hash=c:3 'nt'") with
  | error e =>
    rw [hparse] at hread
    nomatch hread
  | ok r =>
    rw [hparse] at hread
    obtain ⟨hmarkers, hhashes⟩ := Prod.mk.inj (Option.some.inj hread)
    obtain ⟨rest, hrest, hwith⟩ := hinsert r hparse
    rw [hhashes] at hrest
    obtain rfl := (List.cons.inj hrest).2
    exact ⟨r, rfl, hmarkers, hhashes, hwith⟩

end Requirement

end Requisite
