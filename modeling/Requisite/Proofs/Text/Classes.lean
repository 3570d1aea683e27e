import Requisite.Proofs.Name

/-!
# Classes of characters

* `Text.decidableForallMem`, `Text.decidableForallMemOption` — what is said of all characters of a text
  is decided along the text;
* **`Text.isBlank_eq_false`** — no printable character of ASCII is blank;
* **`Text.isBlank_of_isAlphanum`** — no letter or digit of ASCII is;
* **`Text.isLower_or_isDigit_toLower`** — letters and digits are lowered to small letters and digits.
-/

namespace Requisite.Text

/-- What is said of all characters of a text is decided along the text, and not along all characters
that there are. -/
scoped instance (priority := 1100) decidableForallMem (p : Char → Prop) [DecidablePred p]
    (cs : List Char) : Decidable (∀ c ∈ cs, p c) :=
  List.decidableBAll p cs

/-- What is said of a character that may be missing is decided on it, if it is there. -/
scoped instance (priority := 1100) decidableForallMemOption (p : Char → Prop) [DecidablePred p]
    (c? : Option Char) : Decidable (∀ c ∈ c?, p c) :=
  Option.decidableForallMem c?

/-- No printable character of ASCII is blank. -/
theorem isBlank_eq_false {c : Char} (hlow : 33 ≤ c.toNat) (hhigh : c.toNat ≤ 126) :
    isBlank c = false := by
  simp only [isBlank, blankRanges, List.any_cons, List.any_nil, Bool.or_false, Bool.or_eq_false_iff,
    Bool.and_eq_false_iff, decide_eq_false_iff_not]
  omega

/-- The places of the letters and digits of ASCII. -/
theorem toNat_of_isAlphanum {c : Char} (h : c.isAlphanum = true) :
    (65 ≤ c.toNat ∧ c.toNat ≤ 90) ∨ (97 ≤ c.toNat ∧ c.toNat ≤ 122) ∨
      (48 ≤ c.toNat ∧ c.toNat ≤ 57) := by
  change (((65 ≤ c.val ∧ c.val ≤ 90) || 97 ≤ c.val && c.val ≤ 122) ||
    48 ≤ c.val && c.val ≤ 57) = true at h
  simp only [Bool.or_eq_true, Bool.and_eq_true, decide_eq_true_eq, UInt32.le_iff_toNat_le] at h
  change ((65 ≤ c.toNat ∧ c.toNat ≤ 90) ∨ (97 ≤ c.toNat ∧ c.toNat ≤ 122)) ∨
    (48 ≤ c.toNat ∧ c.toNat ≤ 57) at h
  rwa [or_assoc] at h

theorem isAlphanum_of_toNat {c : Char} (hlow : 97 ≤ c.toNat) (hhigh : c.toNat ≤ 122) :
    c.isAlphanum = true := by
  show (((65 ≤ c.val ∧ c.val ≤ 90) || 97 ≤ c.val && c.val ≤ 122) ||
    48 ≤ c.val && c.val ≤ 57) = true
  simp only [Bool.or_eq_true, Bool.and_eq_true, decide_eq_true_eq, UInt32.le_iff_toNat_le]
  exact Or.inl (Or.inr ⟨hlow, hhigh⟩)

theorem isAlpha_of_isDigit {c : Char} (h : c.isDigit = true) : c.isAlpha = false := by
  rw [Bool.eq_false_iff]
  intro halpha
  change (48 ≤ c.val && c.val ≤ 57) = true at h
  change ((65 ≤ c.val ∧ c.val ≤ 90) || 97 ≤ c.val && c.val ≤ 122) = true at halpha
  simp only [Bool.or_eq_true, Bool.and_eq_true, decide_eq_true_eq, UInt32.le_iff_toNat_le]
    at h halpha
  change 48 ≤ c.toNat ∧ c.toNat ≤ 57 at h
  change (65 ≤ c.toNat ∧ c.toNat ≤ 90) ∨ (97 ≤ c.toNat ∧ c.toNat ≤ 122) at halpha
  omega

theorem isBlank_of_isAlphanum {c : Char} (h : c.isAlphanum = true) : isBlank c = false := by
  have hplace := toNat_of_isAlphanum h
  exact isBlank_eq_false (by omega) (by omega)

/-- A letter or digit of ASCII is lowered to a small letter or a digit. -/
theorem isLower_or_isDigit_toLower {c : Char} (h : c.isAlphanum = true) :
    c.toLower.isLower = true ∨ c.toLower.isDigit = true := by
  have hplace : (97 ≤ c.toLower.toNat ∧ c.toLower.toNat ≤ 122) ∨
      (48 ≤ c.toLower.toNat ∧ c.toLower.toNat ≤ 57) := by
    have hc := toNat_of_isAlphanum h
    by_cases hcapital : 65 ≤ c.toNat ∧ c.toNat ≤ 90
    · have hlower := toNat_toLower hcapital.1 hcapital.2
      omega
    · rcases toLower_cases c with hsame | ⟨hcapital', -⟩
      · rw [hsame]
        omega
      · exact absurd hcapital' hcapital
  show (97 ≤ c.toLower.val && c.toLower.val ≤ 122) = true ∨
    (48 ≤ c.toLower.val && c.toLower.val ≤ 57) = true
  simp only [Bool.and_eq_true, decide_eq_true_eq, UInt32.le_iff_toNat_le]
  exact hplace

end Requisite.Text
