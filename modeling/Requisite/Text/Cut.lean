import Requisite.Text.Basic

/-!
# Cutting a text

* `cut` — the parts before and after the first occurrence of a character;
* `after?`, `before?` — a text without what it starts or ends with;
* `cut_eq_some`, `after?_eq_some`, `before?_eq_some` — the parts of a text join again;
* `lines`, `lastLine` — the lines of a text, and the last one that is not blank.
-/

namespace Requisite.Text

/-- The text before the first `sep` and the text after it. -/
def cut (sep : Char) : List Char → Option (List Char × List Char)
  | [] => none
  | c :: cs => if c = sep then some ([], cs) else (cut sep cs).map fun (a, b) => (c :: a, b)

theorem cut_eq_none {sep : Char} {cs : List Char} : cut sep cs = none ↔ sep ∉ cs := by
  induction cs with
  | nil => simp [cut]
  | cons c cs ih =>
    by_cases h : c = sep
    · simp [cut, h]
    · simp [cut, h, ih, Ne.symm h]

theorem cut_append {sep : Char} {a : List Char} (h : sep ∉ a) (b : List Char) :
    cut sep (a ++ sep :: b) = some (a, b) := by
  induction a with
  | nil => simp [cut]
  | cons c a ih =>
    simp only [List.mem_cons, not_or] at h
    simp [cut, Ne.symm h.1, ih h.2]

theorem cut_eq_some {sep : Char} {cs a b : List Char} :
    cut sep cs = some (a, b) ↔ cs = a ++ sep :: b ∧ sep ∉ a := by
  refine ⟨fun h => ?_, fun ⟨h, ha⟩ => h ▸ cut_append ha b⟩
  induction cs generalizing a with
  | nil => simp [cut] at h
  | cons c cs ih =>
    by_cases hc : c = sep
    · simp only [cut, hc, if_true, Option.some.injEq, Prod.mk.injEq] at h
      simp [← h.1, ← h.2, hc]
    · simp only [cut, hc, if_false, Option.map_eq_some_iff, Prod.mk.injEq, Prod.exists] at h
      obtain ⟨a', b', h', rfl, rfl⟩ := h
      obtain ⟨rfl, ha⟩ := ih h'
      simp [ha, Ne.symm hc]

/-! ### The ends of a text -/

/-- What follows `lead` at the start of a text. -/
def strip? : (lead cs : List Char) → Option (List Char)
  | [], cs => some cs
  | _ :: _, [] => none
  | l :: lead, c :: cs => if c = l then strip? lead cs else none

theorem strip?_eq_some {lead cs rest : List Char} :
    strip? lead cs = some rest ↔ cs = lead ++ rest := by
  induction lead generalizing cs with
  | nil => simp [strip?]
  | cons l lead ih =>
    cases cs with
    | nil => simp [strip?]
    | cons c cs =>
      by_cases h : c = l
      · simp [strip?, h, ih]
      · simp [strip?, h]

/-- What follows the text `lead` at the start of another one. -/
def after? (lead : String) (cs : List Char) : Option (List Char) :=
  strip? lead.toList cs

theorem after?_eq_some {lead : String} {cs rest : List Char} :
    after? lead cs = some rest ↔ cs = lead.toList ++ rest :=
  strip?_eq_some

theorem after?_length {lead : String} {cs rest : List Char} (h : after? lead cs = some rest) :
    rest.length ≤ cs.length := by
  rw [after?_eq_some.1 h, List.length_append]
  omega

/-- What precedes the text `tail` at the end of another one. -/
def before? (tail : String) (cs : List Char) : Option (List Char) :=
  (strip? tail.toList.reverse cs.reverse).map List.reverse

theorem before?_eq_some {tail : String} {cs rest : List Char} :
    before? tail cs = some rest ↔ cs = rest ++ tail.toList := by
  rw [before?, Option.map_eq_some_iff]
  constructor
  · rintro ⟨a, ha, rfl⟩
    have h := congrArg List.reverse (strip?_eq_some.1 ha)
    rwa [List.reverse_reverse, List.reverse_append, List.reverse_reverse] at h
  · rintro rfl
    exact ⟨rest.reverse, strip?_eq_some.2 (List.reverse_append ..), List.reverse_reverse rest⟩

/-- A text starts with `lead`. -/
def startsWith (lead : String) (cs : List Char) : Bool :=
  (after? lead cs).isSome

/-! ### Lines

A line ends at a line feed, with or without a carriage return before it. -/

/-- A line without a carriage return at its end. -/
def withoutReturn (cs : List Char) : List Char :=
  if cs.getLast? = some '\r' then cs.dropLast else cs

/-- The lines of a text.  After the last break there is no other line if nothing follows. -/
def lines (cs : List Char) : List (List Char) :=
  let pieces := cs.splitOn '\n'
  let ended := pieces.dropLast.map withoutReturn
  match pieces.getLast? with
  | none | some [] => ended
  | some last => ended ++ [last]

/-- The last line that is not blank, empty if there is none. -/
def lastLine (cs : List Char) : List Char :=
  ((lines cs).reverse.find? fun line => !line.all isBlank).getD []

end Requisite.Text
