import Requisite.Name

/-!
# Canonical names

The canonical spelling of a name is its own canonical spelling.  Lowering a letter and collapsing a
run of separators keep what the first and the last character are, so that nothing is trimmed the
second time, and leave no capital and no run.

* **`Name.collapse_collapse`** — collapsing a second time changes nothing;
* **`Name.canonical_canonical`** — the canonical spelling is a normal form.
-/

namespace Requisite

namespace Text

/-! ### Lowering a letter -/

/-- A capital is lowered by 32 places. -/
theorem toNat_toLower {c : Char} (hlow : 65 ≤ c.toNat) (hhigh : c.toNat ≤ 90) :
    c.toLower.toNat = c.toNat + 32 := by
  have hcapital : c.val ≥ 'A'.val ∧ c.val ≤ 'Z'.val :=
    ⟨UInt32.le_iff_toNat_le.2 hlow, UInt32.le_iff_toNat_le.2 hhigh⟩
  unfold Char.toLower
  rw [dif_pos hcapital]
  show (c.val + 32).toNat = c.toNat + 32
  rw [UInt32.toNat_add]
  show (c.toNat + 32) % 2 ^ 32 = c.toNat + 32
  omega

theorem toLower_cases (c : Char) : c.toLower = c ∨
    (65 ≤ c.toNat ∧ c.toNat ≤ 90) ∧ c.toLower.toNat = c.toNat + 32 := by
  by_cases h : 65 ≤ c.toNat ∧ c.toNat ≤ 90
  · exact Or.inr ⟨h, toNat_toLower h.1 h.2⟩
  · refine Or.inl (dif_neg fun hcapital => h ?_)
    exact ⟨UInt32.le_iff_toNat_le.1 hcapital.1, UInt32.le_iff_toNat_le.1 hcapital.2⟩

/-- Lowering a letter does not change a class without letters. -/
theorem apply_toLower {p : Char → Bool} (c : Char)
    (hp : ∀ d : Char, (65 ≤ d.toNat ∧ d.toNat ≤ 90) ∨ (97 ≤ d.toNat ∧ d.toNat ≤ 122) → p d = false) :
    p c.toLower = p c := by
  rcases toLower_cases c with h | ⟨hc, h⟩
  · rw [h]
  · rw [hp c (Or.inl hc), hp c.toLower (Or.inr (by omega))]

theorem toLower_toLower (c : Char) : c.toLower.toLower = c.toLower := by
  rcases toLower_cases c.toLower with h | ⟨hc, -⟩
  · exact h
  · rcases toLower_cases c with h | ⟨hupper, h⟩
    · rw [h, h]
    · omega

theorem isBlank_toLower (c : Char) : isBlank c.toLower = isBlank c := by
  refine apply_toLower c fun d hd => ?_
  simp only [isBlank, blankRanges, List.any_cons, List.any_nil, Bool.or_false, Bool.or_eq_false_iff,
    Bool.and_eq_false_iff, decide_eq_false_iff_not]
  omega

/-! ### Trimming -/

/-- A text whose ends are not blank is left as it is. -/
theorem trim_eq_self {cs : List Char} (hhead : (cs.head?.map isBlank) ≠ some true)
    (hlast : (cs.getLast?.map isBlank) ≠ some true) : trim cs = cs := by
  have hkeep : ∀ ds : List Char, ds.head?.map isBlank ≠ some true → ds.dropWhile isBlank = ds := by
    intro ds hds
    cases ds with
    | nil => rfl
    | cons d ds =>
      rw [List.dropWhile_cons_of_neg]
      exact fun hd => hds (congrArg some hd)
  rw [trim, trimEnd, trimStart, hkeep cs hhead, hkeep cs.reverse, List.reverse_reverse]
  rwa [List.head?_reverse]

theorem head?_dropWhile_isBlank (cs : List Char) :
    (cs.dropWhile isBlank).head?.map isBlank ≠ some true := by
  have h := List.head?_dropWhile_not isBlank cs
  intro hblank
  cases hcs : (cs.dropWhile isBlank).head? with
  | none =>
    rw [hcs] at hblank
    nomatch hblank
  | some c =>
    rw [hcs] at h hblank
    rw [Option.map_some, h] at hblank
    nomatch hblank

/-- A trimmed text does not end in a blank. -/
theorem getLast?_trim (cs : List Char) : (trim cs).getLast?.map isBlank ≠ some true := by
  rw [trim, trimEnd, List.getLast?_reverse]
  exact head?_dropWhile_isBlank _

/-- A trimmed text does not start with a blank. -/
theorem head?_trim (cs : List Char) : (trim cs).head?.map isBlank ≠ some true := by
  have hprefix : trim cs <+: trimStart cs := by
    rw [trim, trimEnd, ← List.reverse_suffix, List.reverse_reverse]
    exact List.dropWhile_suffix isBlank
  obtain ⟨ds, hds⟩ := hprefix
  have hstart : (trimStart cs).head?.map isBlank ≠ some true := head?_dropWhile_isBlank cs
  rw [← hds] at hstart
  cases hcs : trim cs with
  | nil => exact fun h => nomatch h
  | cons c cs' =>
    rw [hcs] at hstart
    exact hstart

end Text

namespace Name

open Text

theorem isSeparator_toLower (c : Char) : isSeparator c.toLower = isSeparator c := by
  refine apply_toLower c fun d hd => ?_
  simp only [isSeparator, Bool.or_eq_false_iff, beq_eq_false_iff_ne]
  refine ⟨⟨?_, ?_⟩, ?_⟩ <;> rintro rfl <;> revert hd <;> decide

theorem isBlank_of_isSeparator {c : Char} (h : isSeparator c = true) : isBlank c = false := by
  simp only [isSeparator, Bool.or_eq_true, beq_iff_eq] at h
  rcases h with (rfl | rfl) | rfl <;> decide

/-- What a collapsed text starts with. -/
theorem collapse_cons (c : Char) (cs : List Char) : ∃ d ds, collapse (c :: cs) = d :: ds ∧
    isSeparator d = isSeparator c ∧ isBlank d = isBlank c := by
  induction cs generalizing c with
  | nil =>
    cases hc : isSeparator c with
    | true =>
      refine ⟨'-', [], by rw [collapse, if_pos hc], rfl, ?_⟩
      rw [isBlank_of_isSeparator hc, isBlank_of_isSeparator rfl]
    | false =>
      refine ⟨c.toLower, [], by rw [collapse, if_neg (by rw [hc]; exact Bool.false_ne_true)], ?_,
        isBlank_toLower c⟩
      rw [isSeparator_toLower, hc]
  | cons d ds ih =>
    cases hc : isSeparator c with
    | false =>
      refine ⟨c.toLower, collapse (d :: ds), ?_, ?_, isBlank_toLower c⟩
      · rw [collapse, hc]
        rfl
      · rw [isSeparator_toLower, hc]
    | true =>
      cases hd : isSeparator d with
      | true =>
        obtain ⟨e, es, he, hsep, hblank⟩ := ih d
        refine ⟨e, es, ?_, hsep.trans hd, ?_⟩
        · rw [collapse, hc, hd]
          exact he
        · rw [hblank, isBlank_of_isSeparator hc, isBlank_of_isSeparator hd]
      | false =>
        refine ⟨'-', collapse (d :: ds), ?_, rfl, ?_⟩
        · rw [collapse, hc, hd]
          rfl
        · rw [isBlank_of_isSeparator hc, isBlank_of_isSeparator rfl]

theorem head?_collapse (cs : List Char) :
    (collapse cs).head?.map isBlank = cs.head?.map isBlank := by
  cases cs with
  | nil => rfl
  | cons c cs =>
    obtain ⟨d, ds, h, -, hblank⟩ := collapse_cons c cs
    rw [h, List.head?_cons, List.head?_cons, Option.map_some, Option.map_some, hblank]

theorem getLast?_collapse (cs : List Char) :
    (collapse cs).getLast?.map isBlank = cs.getLast?.map isBlank := by
  fun_induction collapse cs with
  | case1 => rfl
  | case2 c hc =>
    show some (isBlank '-') = some (isBlank c)
    rw [isBlank_of_isSeparator hc, isBlank_of_isSeparator rfl]
  | case3 c hc => exact congrArg some (isBlank_toLower c)
  | case4 c d cs hc ih =>
    obtain ⟨e, es, he, -⟩ := collapse_cons d cs
    rw [List.getLast?_cons_cons, ← ih, he, List.getLast?_cons_cons]
  | case5 c d cs hc hd ih => rw [List.getLast?_cons_cons, ih]
  | case6 c d cs hc hd ih =>
    obtain ⟨e, es, he, -⟩ := collapse_cons d cs
    rw [List.getLast?_cons_cons, ← ih, he, List.getLast?_cons_cons]

theorem collapse_collapse (cs : List Char) : collapse (collapse cs) = collapse cs := by
  fun_induction collapse cs with
  | case1 => rfl
  | case2 c hc => rfl
  | case3 c hc =>
    rw [collapse, isSeparator_toLower, if_neg hc, toLower_toLower]
  | case4 c d cs hc ih =>
    obtain ⟨e, es, he, -⟩ := collapse_cons d cs
    rw [he] at ih ⊢
    rw [collapse, isSeparator_toLower, if_pos hc, toLower_toLower, ih]
  | case5 c d cs hc hd ih => exact ih
  | case6 c d cs hc hd ih =>
    obtain ⟨e, es, he, hsep, -⟩ := collapse_cons d cs
    rw [he] at ih ⊢
    rw [collapse, hsep, if_neg (by decide), if_neg hd, ih]

/-- The canonical spelling of a name is its own canonical spelling. -/
theorem canonical_canonical (name : String) : canonical (canonical name) = canonical name := by
  have hkeep : trim (collapse (trim name.toList)) = collapse (trim name.toList) := by
    refine trim_eq_self ?_ ?_
    · rw [head?_collapse]
      exact head?_trim _
    · rw [getLast?_collapse]
      exact getLast?_trim _
  rw [canonical, canonical, String.toList_ofList, hkeep, collapse_collapse]

end Name

end Requisite
