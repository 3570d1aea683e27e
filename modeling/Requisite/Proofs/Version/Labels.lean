import Mathlib.Data.Sum.Order
import Requisite.Proofs.Version.Normal
import Requisite.Proofs.Version.Order

/-!
# The order of local labels

Labels are meant to be compared segment by segment: a number by its value and behind all words, a word
by its letters, and a label behind its own beginnings.  Versions that differ in their labels only are
compared by the texts of the labels instead, from the first character on.  The two agree on an absent
label, and on a label that goes on behind the segments of another; where two labels part at a segment,
they agree exactly if these two segments are as texts in the order that they have as segments.

* `Version.segmentPlace` — the place of a segment, words before numbers;
* `Version.labelPlace` — the place of a label by its segments, an absent one first;
* `Version.Fork` — where two labels part at a segment;
* **`Version.Fork.lt_iff`**, **`Version.Fork.segments_lt_iff`** — behind a fork the segments decide, as
  texts and by their places;
* **`Version.compare_labels_as_texts`** — labels compare as texts, and when that is the order of their
  segments;
* **`Version.not_compares_segments`** — it is not always.
-/

namespace Requisite

open Ordering Text Spelling

/-! ### Lists with a common beginning -/

section Lists

variable {α β : Type} [LinearOrder α] [LinearOrder β]

theorem append_lt_append_iff (lead s t : List α) : lead ++ s < lead ++ t ↔ s < t := by
  induction lead with
  | nil => rfl
  | cons a lead ih => simp [ih]

/-- Lists that part at two elements are ordered by these. -/
theorem append_cons_lt_iff {a b : α} (h : a ≠ b) (lead s t : List α) :
    lead ++ a :: s < lead ++ b :: t ↔ a < b := by
  rw [append_lt_append_iff, List.cons_lt_cons_iff, or_iff_left fun heq => h heq.1]

/-- What tells two things apart orders two other ones alike, or not. -/
theorem compares_iff_of_ne {o : Ordering} {a a' : α} {b b' : β} (h : o.Compares a a')
    (ha : a ≠ a') (hb : b ≠ b') : o.Compares b b' ↔ (a < a' ↔ b < b') := by
  cases o with
  | lt =>
    have hlt : a < a' := h
    simp [Ordering.Compares, hlt]
  | eq => exact absurd h ha
  | gt =>
    have hlt : a' < a := h
    show b' < b ↔ (a < a' ↔ b < b')
    rw [iff_false_left hlt.not_gt, not_lt, hb.symm.le_iff_lt]

theorem compares_snd_of_toLex {a : α} {b b' : β} {o : Ordering}
    (h : o.Compares (toLex (a, b)) (toLex (a, b'))) : o.Compares b b' := by
  have hlt : ∀ c c' : β, toLex (a, c) < toLex (a, c') → c < c' := fun c c' h =>
    (Prod.Lex.toLex_lt_toLex.1 h).elim (fun h => absurd h (lt_irrefl a)) And.right
  cases o with
  | lt => exact hlt b b' h
  | gt => exact hlt b' b h
  | eq => exact congrArg (fun pair => (ofLex pair).2) h

end Lists

namespace Version

/-! ### The order that is meant -/

/-- The place of a segment: words in the order of texts, and numbers by their values behind them. -/
def segmentPlace (segment : List Char) : List Char ⊕ₗ ℕ :=
  match readNat? segment with
  | some n => toLex (.inr n)
  | none => toLex (.inl segment)

/-- The places of the segments of a label. -/
def segmentPlaces (label : List Char) : List (List Char ⊕ₗ ℕ) :=
  (label.splitOnP isSeparator).map segmentPlace

/-- The place of a label in the order of its segments, where an absent label comes first and a longer
one behind its own beginnings. -/
def labelPlace (label : Option String) : WithBot (List (List Char ⊕ₗ ℕ)) :=
  absentFirst (label.map fun l => segmentPlaces l.toList)

/-! ### Where labels part -/

/-- Two labels part: behind a common beginning, which is empty or ends in a separator, they have two
segments in different places, and behind these nothing, a point or a hyphen. -/
structure Fork where
  lead : List Char
  left : List Char
  right : List Char
  leftRest : List Char
  rightRest : List Char
  isLead : ∀ c ∈ lead.getLast?, isSeparator c = true
  isLeft : ∀ c ∈ left, isLabelChar c = true
  isRight : ∀ c ∈ right, isLabelChar c = true
  isLeftRest : ∀ c ∈ leftRest.head?, c ∈ ['.', '-']
  isRightRest : ∀ c ∈ rightRest.head?, c ∈ ['.', '-']
  apart : segmentPlace left ≠ segmentPlace right

/-- The label that goes on to the left. -/
def Fork.leftLabel (f : Fork) : List Char :=
  f.lead ++ (f.left ++ f.leftRest)

/-- The label that goes on to the right. -/
def Fork.rightLabel (f : Fork) : List Char :=
  f.lead ++ (f.right ++ f.rightRest)

theorem le_toNat_of_isLabelChar {c : Char} (h : isLabelChar c = true) : 48 ≤ c.toNat := by
  rw [isLabelChar, fold] at h
  split at h
  next hc => rw [hc]; decide
  next =>
    split at h
    next hc => rw [hc]; decide
    next =>
      have hlower := toNat_of_isAlphanum h
      rcases toLower_cases c with hc | ⟨hc, -⟩
      · rw [hc] at hlower
        omega
      · omega

/-- Letters and digits come behind the point and the hyphen. -/
theorem lt_of_isLabelChar {c d : Char} (hc : c ∈ ['.', '-']) (hd : isLabelChar d = true) :
    c < d := by
  have hplace := le_toNat_of_isLabelChar hd
  simp only [List.mem_cons, List.not_mem_nil, or_false] at hc
  rw [Char.lt_def, UInt32.lt_iff_toNat_lt]
  show c.toNat < d.toNat
  rcases hc with rfl | rfl
  · show 46 < d.toNat
    omega
  · show 45 < d.toNat
    omega

/-- Splitting leaves the pieces of a common beginning as they are. -/
theorem exists_splitOnP_lead {lead : List Char}
    (h : ∀ c ∈ lead.getLast?, isSeparator c = true) : ∃ pieces, ∀ cs,
      (lead ++ cs).splitOnP isSeparator = pieces ++ cs.splitOnP isSeparator := by
  rcases List.eq_nil_or_concat' lead with rfl | ⟨front, c, rfl⟩
  · exact ⟨[], fun cs => rfl⟩
  · have hc : isSeparator c = true := h c (by simp)
    refine ⟨front.splitOnP isSeparator, fun cs => ?_⟩
    rw [List.append_assoc]
    exact List.splitOnP_append_cons _ _ hc

theorem isSeparator_of_mem {c : Char} (h : c ∈ ['.', '-']) : isSeparator c = true := by
  simp only [List.mem_cons, List.not_mem_nil, or_false] at h
  rcases h with rfl | rfl <;> rfl

/-- A segment is the first piece of what it stands at the beginning of. -/
theorem exists_splitOnP_segment {segment rest : List Char}
    (h : ∀ c ∈ segment, isLabelChar c = true) (hrest : ∀ c ∈ rest.head?, c ∈ ['.', '-']) :
    ∃ pieces, (segment ++ rest).splitOnP isSeparator = segment :: pieces := by
  have h : ∀ c ∈ segment, isSeparator c = false := fun c hc => isSeparator_of_isLabelChar (h c hc)
  cases rest with
  | nil => exact ⟨[], by rw [List.append_nil, List.splitOnP_eq_singleton h]⟩
  | cons c rest =>
    have hc := isSeparator_of_mem (hrest c rfl)
    exact ⟨_, List.splitOnP_append_cons_of_forall_mem h c hc rest⟩

/-- The pieces of two labels that part. -/
theorem Fork.exists_pieces (f : Fork) : ∃ pieces ls ms,
    f.leftLabel.splitOnP isSeparator = pieces ++ f.left :: ls ∧
      f.rightLabel.splitOnP isSeparator = pieces ++ f.right :: ms := by
  obtain ⟨pieces, hpieces⟩ := exists_splitOnP_lead f.isLead
  obtain ⟨ls, hls⟩ := exists_splitOnP_segment f.isLeft f.isLeftRest
  obtain ⟨ms, hms⟩ := exists_splitOnP_segment f.isRight f.isRightRest
  refine ⟨pieces, ls, ms, ?_, ?_⟩
  · rw [leftLabel, hpieces, hls]
  · rw [rightLabel, hpieces, hms]

theorem Fork.segmentPlaces_ne (f : Fork) :
    segmentPlaces f.leftLabel ≠ segmentPlaces f.rightLabel := by
  obtain ⟨pieces, ls, ms, hl, hm⟩ := f.exists_pieces
  rw [segmentPlaces, segmentPlaces, hl, hm]
  simp [f.apart]

/-- By their segments, labels that part are ordered as the segments there. -/
theorem Fork.segments_lt_iff (f : Fork) :
    segmentPlaces f.leftLabel < segmentPlaces f.rightLabel ↔
      segmentPlace f.left < segmentPlace f.right := by
  obtain ⟨pieces, ls, ms, hl, hm⟩ := f.exists_pieces
  rw [segmentPlaces, segmentPlaces, hl, hm, List.map_append, List.map_append, List.map_cons,
    List.map_cons, append_cons_lt_iff f.apart]

/-! ### Labels as texts -/

/-- As long as a point, a hyphen or the end stands behind them, different segments are ordered as
texts whatever follows. -/
theorem append_rest_lt_iff {s t x y : List Char} (hne : s ≠ t)
    (hs : ∀ c ∈ s, isLabelChar c = true) (ht : ∀ c ∈ t, isLabelChar c = true)
    (hx : ∀ c ∈ x.head?, c ∈ ['.', '-']) (hy : ∀ c ∈ y.head?, c ∈ ['.', '-']) :
    s ++ x < t ++ y ↔ s < t := by
  induction s generalizing t with
  | nil =>
    obtain ⟨d, t, rfl⟩ := List.exists_cons_of_ne_nil hne.symm
    refine iff_of_true ?_ (List.nil_lt_cons d t)
    cases x with
    | nil => exact List.nil_lt_cons d (t ++ y)
    | cons c x =>
      exact List.cons_lt_cons_iff.2 (Or.inl (lt_of_isLabelChar (hx c rfl) (ht d List.mem_cons_self)))
  | cons a s ih =>
    cases t with
    | nil =>
      refine iff_of_false ?_ (List.not_lt_nil (a :: s))
      cases y with
      | nil => exact List.not_lt_nil (a :: s ++ x)
      | cons d y =>
        have hlt := lt_of_isLabelChar (hy d rfl) (hs a List.mem_cons_self)
        exact not_lt_of_gt (List.cons_lt_cons_iff.2 (Or.inl hlt))
    | cons b t =>
      rw [List.cons_append, List.cons_append, List.cons_lt_cons_iff, List.cons_lt_cons_iff]
      refine or_congr_right (and_congr_right fun heq => ih ?_ ?_ ?_)
      · rintro rfl
        exact hne (congrArg (· :: s) heq)
      · exact fun c hc => hs c (List.mem_cons_of_mem a hc)
      · exact fun c hc => ht c (List.mem_cons_of_mem b hc)

/-- As texts, labels that part are ordered as the segments there are as texts. -/
theorem Fork.lt_iff (f : Fork) : f.leftLabel < f.rightLabel ↔ f.left < f.right := by
  have hne : f.left ≠ f.right := fun heq => f.apart (congrArg segmentPlace heq)
  rw [leftLabel, rightLabel, append_lt_append_iff,
    append_rest_lt_iff hne f.isLeft f.isRight f.isLeftRest f.isRightRest]

/-- A label comes before what goes on behind it, as a text and by its segments. -/
theorem lt_append_label (l rest : List Char) {c : Char} (hc : isSeparator c = true) :
    l < l ++ c :: rest ∧ segmentPlaces l < segmentPlaces (l ++ c :: rest) := by
  have hlt : ∀ {α : Type} [LinearOrder α] (s : List α) {t : List α}, t ≠ [] → s < s ++ t := by
    intro α _ s t ht
    obtain ⟨a, t, rfl⟩ := List.exists_cons_of_ne_nil ht
    have h := (append_lt_append_iff s [] (a :: t)).2 (List.nil_lt_cons a t)
    rwa [List.append_nil] at h
  refine ⟨hlt l (List.cons_ne_nil c rest), ?_⟩
  rw [segmentPlaces, segmentPlaces, List.splitOnP_append_cons l rest hc, List.map_append]
  exact hlt _ (List.map_eq_nil_iff.not.2 (List.splitOnP_ne_nil _ _))

/-! ### The order that labels have -/

/-- Two versions that differ in their labels only are in the order that is meant. -/
def OrderedBySegments (a b : Version) : Prop :=
  (a.compare b).Compares (labelPlace a.label) (labelPlace b.label)

/-- Versions that differ in their labels only compare as the labels do, as texts. -/
theorem compares_label {a b : Version} (h : a.common.same b.common = true) :
    (a.compare b).Compares (absentFirst a.label) (absentFirst b.label) := by
  have hkey : a.key = b.key :=
    congrArg (fun k => (ofLex k).1) ((compares_key_label _ _).eq_eq.1 (same_iff.1 h))
  have hcompare := compares_key_label a b
  rw [labelledKey, labelledKey, hkey] at hcompare
  exact compares_snd_of_toLex hcompare

theorem compares_some {a b : Version} {l m : List Char} (h : a.common.same b.common = true)
    (ha : a.label = some (String.ofList l)) (hb : b.label = some (String.ofList m)) :
    (a.compare b).Compares l m := by
  have hcompare := compares_label h
  rw [ha, hb] at hcompare
  have htexts : (a.compare b).Compares (String.ofList l) (String.ofList m) :=
    WithBot.coe_strictMono.compares.1 hcompare
  have hmono : StrictMono String.toList := fun _ _ hlt => String.lt_iff.1 hlt
  rw [← hmono.compares, String.toList_ofList, String.toList_ofList] at htexts
  exact htexts

theorem orderedBySegments_some_iff {a b : Version} {l m : List Char}
    (ha : a.label = some (String.ofList l)) (hb : b.label = some (String.ofList m)) :
    OrderedBySegments a b ↔ (a.compare b).Compares (segmentPlaces l) (segmentPlaces m) := by
  rw [OrderedBySegments, ha, hb]
  have hplace : ∀ cs : List Char, labelPlace (some (String.ofList cs)) =
      ((segmentPlaces cs : List (List Char ⊕ₗ ℕ)) : WithBot (List (List Char ⊕ₗ ℕ))) := by
    intro cs
    show absentFirst (some (segmentPlaces (String.ofList cs).toList)) = _
    rw [String.toList_ofList]
    rfl
  rw [hplace, hplace]
  exact WithBot.coe_strictMono.compares

/-- An absent label comes first, whichever way labels are compared. -/
theorem orderedBySegments_of_absent {a b : Version} (h : a.common.same b.common = true)
    (habsent : a.label = none ∨ b.label = none) : OrderedBySegments a b := by
  have hcompare := compares_label h
  rw [OrderedBySegments]
  cases ha : a.label with
  | none =>
    cases hb : b.label with
    | none =>
      rw [ha, hb] at hcompare
      rw [hcompare.inj (show eq.Compares _ _ from rfl)]
      rfl
    | some m =>
      rw [ha, hb] at hcompare
      rw [hcompare.inj (show lt.Compares _ _ from WithBot.bot_lt_coe m)]
      exact WithBot.bot_lt_coe _
  | some l =>
    have hb : b.label = none := habsent.resolve_left (by rw [ha]; nofun)
    rw [ha, hb] at hcompare
    rw [hb, hcompare.inj (show gt.Compares _ _ from WithBot.bot_lt_coe l)]
    exact WithBot.bot_lt_coe _

/-- Versions that differ in their labels only compare as the labels do as texts, an absent one first.
That is the order of the segments where a label is absent, and where one goes on behind the other; of
labels with the same places it is the order only if they are the same text; and where two labels part
at a segment it is the order exactly if the two segments are as texts as they are as segments. -/
theorem compare_labels_as_texts {a b : Version} (h : a.common.same b.common = true) :
    (a.compare b).Compares (absentFirst a.label) (absentFirst b.label) ∧
    (a.label = none ∨ b.label = none → OrderedBySegments a b) ∧
    (∀ l c rest, isSeparator c = true → a.label = some (String.ofList l) →
      b.label = some (String.ofList (l ++ c :: rest)) →
        a.compare b = .lt ∧ OrderedBySegments a b) ∧
    (labelPlace a.label = labelPlace b.label → (OrderedBySegments a b ↔ a.label = b.label)) ∧
    ∀ f : Fork, a.label = some (String.ofList f.leftLabel) →
      b.label = some (String.ofList f.rightLabel) → (OrderedBySegments a b ↔
        (f.left < f.right ↔ segmentPlace f.left < segmentPlace f.right)) := by
  refine ⟨compares_label h, orderedBySegments_of_absent h, fun l c rest hc ha hb => ?_,
    fun hplace => ?_, fun f ha hb => ?_⟩
  · obtain ⟨htext, hsegments⟩ := lt_append_label l rest hc
    have hlt : a.compare b = .lt := (compares_some h ha hb).eq_lt.2 htext
    rw [orderedBySegments_some_iff ha hb, hlt]
    exact ⟨rfl, hsegments⟩
  · rw [← absentFirst_injective.eq_iff, ← (compares_label h).eq_eq]
    constructor
    · exact fun hordered => Ordering.Compares.eq_eq hordered |>.2 hplace
    · intro heq
      rw [OrderedBySegments, heq]
      exact hplace
  · have hne : f.leftLabel ≠ f.rightLabel := fun heq =>
      f.segmentPlaces_ne (congrArg segmentPlaces heq)
    rw [orderedBySegments_some_iff ha hb,
      compares_iff_of_ne (compares_some h ha hb) hne f.segmentPlaces_ne, f.lt_iff, f.segments_lt_iff]

/-- Two labels that part at numbers with different counts of digits. -/
def numbersFork : Fork where
  lead := "a.".toList
  left := "9".toList
  right := "10".toList
  leftRest := []
  rightRest := "-b".toList
  isLead := by decide
  isLeft := by decide
  isRight := by decide
  isLeftRest := by decide
  isRightRest := by decide
  apart := by decide

theorem compare_labels_as_texts_numbers :
    let a : Version := { ofRelease 0 [1, 0] with label := some "a.9" }
    let b : Version := { ofRelease 0 [1] with label := some "a.10-b" }
    Version.parse "1.0+a.9" = .ok a ∧ Version.parse "1+A.10-b" = .ok b ∧
      a.common.same b.common = true ∧ a.compare b = .gt ∧ ¬OrderedBySegments a b := by
  intro a b
  have hsame : a.common.same b.common = true := by decide
  have ha : a.label = some (String.ofList numbersFork.leftLabel) := by decide
  have hb : b.label = some (String.ofList numbersFork.rightLabel) := by decide
  obtain ⟨-, -, -, -, hfork⟩ := compare_labels_as_texts hsame
  refine ⟨by decide, by decide, hsame, by decide, ?_⟩
  rw [hfork numbersFork ha hb]
  decide

/-- Versions that differ in their labels only are not always in the order of the segments: nine comes
behind ten. -/
theorem not_compares_segments : ¬∀ (s t : String) (a b : Version), Version.parse s = .ok a →
    Version.parse t = .ok b → a.common.same b.common = true → OrderedBySegments a b := by
  intro h
  have hordered := h "1.0+10" "1.0+9" { ofRelease 0 [1, 0] with label := some "10" }
    { ofRelease 0 [1, 0] with label := some "9" } (by decide) (by decide) (by decide)
  have hlt : segmentPlaces "10".toList < segmentPlaces "9".toList :=
    WithBot.coe_lt_coe.1 hordered
  exact absurd hlt (by decide)

end Version

end Requisite
