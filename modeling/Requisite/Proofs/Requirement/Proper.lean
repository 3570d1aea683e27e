import Requisite.Proofs.Requirement.Head

/-!
# What every accepted text denotes

A text may be a name with extras, a range or a target, a marker and options in between, and each of
them is checked where it is read.  What is accepted in the end has passed all of the checks, whatever
way it took.

* `Dependency.Proper` — what holds of every dependency that was read from a text;
* `Requirement.selected` — the selectors that a text gives, as references;
* `Origin.exists_ofTarget_iff` — a repository is refused exactly if it is selected from twice;
* **`Requirement.parse_proper`** — an accepted text denotes a proper dependency and gives no more than
  the selector of its reference, and a text with a second selector is refused.
-/

namespace Requisite

open Text Options

/-! ### Proper dependencies -/

/-- What holds of an origin that was read: no index is named, and a path starts like one. -/
def Origin.Proper : Origin → Prop
  | .registry _ index => index = none
  | .directory path _ _ => ∃ start ∈ ["/", "./", "../"], start.toList <+: path.text.toList
  | .repository _ _ | .archive _ => True

/-- What holds of a dependency that was read from a text. -/
structure Dependency.Proper (d : Dependency) : Prop where
  name : Name.IsPackageName d.name.toList
  extras : ∀ e ∈ d.extras,
    e.toList ≠ [] ∧ trim e.toList = e.toList ∧ Without ['[', ']', ','] e.toList
  python : d.python = none
  markers : ∀ m ∈ d.markers, m.toList ≠ [] ∧ trim m.toList = m.toList
  hashes : ∀ h ∈ d.hashes, h.toList ≠ []
  /-- There is one origin, and no choice. -/
  subject : ∃ origin, d.subject = .one origin ∧ origin.Proper

theorem Origin.Readable.proper {origin : Origin} (h : origin.Readable) : origin.Proper := by
  cases origin with
  | registry range index => exact h.1
  | repository url reference => trivial
  | directory path develop link =>
    obtain ⟨start, hstart, rest, hrest⟩ := startsWithAny_iff.1 h.2
    exact ⟨start, hstart, rest, hrest.symm⟩
  | archive url => trivial

theorem Requirement.Readable.proper {r : Requirement} (h : r.Readable) :
    Dependency.Proper r.toDependency where
  name := Name.isValid_iff.1 h.name
  extras e he := ⟨(h.extras e he).ne_nil, (h.extras e he).trimmed,
    (h.extras e he).plain.of_subset (by decide)⟩
  python := h.python
  markers m hm := ⟨(h.markers m hm).1, (h.markers m hm).2.1⟩
  hashes hash hhash := (h.hashes hash hhash).1
  subject := ⟨r.subject, rfl, h.origin.proper⟩

/-! ### The selectors of a text -/

/-- The reference of a repository; no other origin has one. -/
def Origin.reference? : Origin → Option Reference
  | .repository _ reference => reference
  | .registry _ _ | .directory _ _ _ | .archive _ => none

/-- The references that the selectors of a target stand for.  The target of a repository alone has
selectors; the fragment of a path has flags, and that of a URL has hashes. -/
def Origin.selected (target : List Char) : List Reference :=
  let (location, fragment) := (cut '#' target).getD (target, [])
  if startsWith "git+" location then (fragmentPairs fragment).filterMap Reference.ofEntry? else []

/-- The references that the selectors of a text stand for.  Its options and its marker are no part of
the target. -/
def Requirement.selected (text : String) : List Reference :=
  match cut '@' (headAndMarkers (split (trim text.toList)).2).1 with
  | some (_, target) => Origin.selected (trim target)
  | none => []

theorem Origin.selected_eq {target location fragment : List Char}
    (hparts : (cut '#' target).getD (target, []) = (location, fragment)) :
    selected target = if (after? "git+" location).isSome then
      (fragmentPairs fragment).filterMap Reference.ofEntry? else [] := by
  unfold selected
  rw [hparts]
  rfl

/-- A target that was read gave no more than the selector of its reference. -/
theorem Origin.selected_of_ofTarget {target : List Char} {origin : Origin} {hashes : List String}
    (h : ofTarget target = .ok (origin, hashes)) :
    selected target = origin.reference?.toList := by
  cases hparts : (cut '#' target).getD (target, []) with
  | mk location fragment =>
    rw [selected_eq hparts]
    rcases of_ofTarget hparts h with ⟨url, reference, hurl, hread, rfl, rfl⟩ |
      ⟨hurl, ⟨-, ⟨develop, link, rfl⟩, rfl⟩ | ⟨-, -, rfl⟩⟩
    · rw [hurl, Option.isSome_some, if_pos rfl]
      exact Selectors.read_eq_ok_iff.1 hread
    · rw [hurl, Option.isSome_none, if_neg Bool.false_ne_true]
      rfl
    · rw [hurl, Option.isSome_none, if_neg Bool.false_ne_true]
      rfl

/-- The target of a repository is refused for a second selector, and for nothing else. -/
theorem Origin.exists_ofTarget_iff {target location fragment url : List Char}
    (hparts : (cut '#' target).getD (target, []) = (location, fragment))
    (hurl : after? "git+" location = some url) :
    (∃ result, ofTarget target = .ok result) ↔ (selected target).length ≤ 1 := by
  rw [ofTarget_repository hparts hurl, selected_eq hparts, hurl, Option.isSome_some, if_pos rfl]
  constructor
  · rintro ⟨result, h⟩
    obtain ⟨reference, hread, -⟩ := Outcome.of_map h
    rw [Selectors.read_eq_ok_iff.1 hread]
    cases reference <;> simp
  · intro hlength
    have hreference : (fragmentPairs fragment).filterMap Reference.ofEntry? =
        ((fragmentPairs fragment).filterMap Reference.ofEntry?).head?.toList := by
      cases hrs : (fragmentPairs fragment).filterMap Reference.ofEntry? with
      | nil => rfl
      | cons r rs =>
        rw [hrs, List.length_cons] at hlength
        rw [List.eq_nil_of_length_eq_zero (by omega : rs.length = 0)]
        rfl
    rw [Selectors.read_eq_ok_iff.2 hreference]
    exact ⟨_, rfl⟩

theorem Requirement.selected_of_parse {text : String} {r : Requirement}
    (h : Requirement.parse text = .ok r) : selected text = r.subject.reference?.toList := by
  obtain ⟨hs, d, hhashes, hd, rfl⟩ := Requirement.of_read h
  show selected text = d.subject.reference?.toList
  rw [readHead] at hd
  rw [selected]
  cases hcut : cut '@' (headAndMarkers (split (trim text.toList)).2).1 with
  | some parts =>
    obtain ⟨name, target⟩ := parts
    rw [hcut] at hd
    obtain ⟨name', extras, origin, hashes, -, horigin, rfl⟩ := readTarget_eq_ok_iff.1 hd
    exact Origin.selected_of_ofTarget horigin
  | none =>
    rw [hcut] at hd
    obtain ⟨nameText, rest, name, extras, body, range, -, -, -, -, -, rfl⟩ :=
      readRegistry_eq_ok_iff.1 hd
    rfl

/-- Every accepted text denotes a proper dependency, and what it selects is the reference of that
dependency.  A text that selects a second time is refused. -/
theorem Requirement.parse_proper (text : String) :
    (∀ r, Requirement.parse text = .ok r →
      Dependency.Proper r.toDependency ∧ selected text = r.subject.reference?.toList) ∧
    (1 < (selected text).length → ∃ e, Requirement.parse text = .error e) := by
  refine ⟨fun r h => ⟨(readable_of_parse h).proper, selected_of_parse h⟩, fun hselected => ?_⟩
  cases hparse : Requirement.parse text with
  | error e => exact ⟨e, rfl⟩
  | ok r =>
    rw [selected_of_parse hparse] at hselected
    cases hreference : r.subject.reference? <;> simp [hreference] at hselected

/-- Options in the midst of the extras and before the marker, and a fragment that selects twice. -/
theorem Requirement.parse_proper_selectors :
    (∃ r, Requirement.parse "kek[a, --hash=a:1 b] @ git+https://e.com/k#x&tag=v1 --hash=b:2 ; c" =
      .ok r ∧ Dependency.Proper r.toDependency ∧ r.subject.reference? = some (.tag "v1")) ∧
    ∃ e, Requirement.parse "kek @ git+https://e.com/k#rev=a&tag=b" = .error e := by
  have hproper :=
    (parse_proper "kek[a, --hash=a:1 b] @ git+https://e.com/k#x&tag=v1 --hash=b:2 ; c").1
  refine ⟨?_, (parse_proper "kek @ git+https://e.com/k#rev=a&tag=b").2 (by decide +kernel)⟩
  have hread : (Requirement.parse
      "kek[a, --hash=a:1 b] @ git+https://e.com/k#x&tag=v1 --hash=b:2 ; c").toOption.map
        (fun r => r.subject.reference?) = some (some (.tag "v1")) := by
    decide +kernel
  cases hparse : Requirement.parse
      "kek[a, --hash=a:1 b] @ git+https://e.com/k#x&tag=v1 --hash=b:2 ; c" with
  | error e =>
    rw [hparse] at hread
    nomatch hread
  | ok r =>
    rw [hparse] at hread
    exact ⟨r, rfl, (hproper r hparse).1, Option.some.inj hread⟩

end Requisite
