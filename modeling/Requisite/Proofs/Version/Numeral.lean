import Requisite.Proofs.Version.Reading

/-!
# Numerals

A number may be written with zeros before its digits.  It is read as its value, if that fits a 64-bit
word, and is refused by its digits as they stand there if not.  Where several numbers are read one
after the other, the first one that does not fit decides.

* `Numeral` — a number as it is written;
* `Numeral.checked` — a result, unless one of the numbers before it does not fit a word;
* **`Numeral.number_chars`** — a numeral is read as its value;
* **`Numeral.bind_checked`**, **`Numeral.mapM_number`** — numbers are read one after the other.
-/

namespace Requisite

open Text Spelling

/-- A number as it is written, with zeros before its digits. -/
structure Numeral where
  zeros : ℕ
  value : ℕ
  deriving DecidableEq, Repr

namespace Numeral

/-- The digits of a numeral. -/
def chars (n : Numeral) : List Char :=
  List.replicate n.zeros '0' ++ decimal n.value

theorem isDigit_chars (n : Numeral) : ∀ c ∈ n.chars, c.isDigit = true := by
  intro c hc
  rcases List.mem_append.1 hc with hc | hc
  · rw [List.eq_of_mem_replicate hc]
    rfl
  · exact Nat.isDigit_of_mem_toDigits (by decide) (by decide) hc

theorem isNumber_chars (n : Numeral) : IsNumber n.chars where
  ne_nil := List.append_ne_nil_of_right_ne_nil _ (isNumber_decimal n.value).ne_nil
  isDigit c hc := isDecimalDigit_of_isDigit (n.isDigit_chars c hc)

theorem exists_chars_cons (n : Numeral) : ∃ d ds, n.chars = d :: ds ∧ d.isDigit = true := by
  obtain ⟨d, ds, hchars⟩ := List.exists_cons_of_ne_nil n.isNumber_chars.ne_nil
  exact ⟨d, ds, hchars, n.isDigit_chars d (by simp [hchars])⟩

/-- Zeros before the digits of a number do not change it. -/
theorem ofDigitChars_chars (n : Numeral) : Nat.ofDigitChars 10 n.chars 0 = n.value := by
  have hzeros : Nat.ofDigitChars 10 (List.replicate n.zeros '0') 0 = 0 := by simp
  rw [chars, Nat.ofDigitChars_append, hzeros]
  exact Nat.ofDigitChars_toDigits (by decide) (by decide)

theorem readWord?_chars (n : Numeral) :
    readWord? n.chars = if n.value ≤ maxWord then some n.value else none := by
  have hempty : n.chars.isEmpty = false := List.isEmpty_eq_false_iff.2 n.isNumber_chars.ne_nil
  have hdigits : n.chars.all Char.isDigit = true := List.all_eq_true.2 n.isDigit_chars
  simp [readWord?, hempty, hdigits, n.ofDigitChars_chars]

/-! ### Reading numbers one after the other -/

variable {α β : Type}

/-- What comes of numbers that are read for a result: the first one that does not fit a word is the
fault. -/
def checked (ns : List Numeral) (a : α) : Except VersionFault α :=
  match ns.find? fun n => decide (maxWord < n.value) with
  | none => .ok a
  | some n => .error (.outOfRange (String.ofList n.chars))

/-- A numeral is read as its value, if that fits a word. -/
theorem number_chars (n : Numeral) : number n.chars = checked [n] n.value := by
  rw [number, readWord?_chars, checked]
  by_cases h : n.value ≤ maxWord
  · simp [h, h.not_gt]
  · simp [h, not_le.1 h]

/-- What is read for one result and then for the next is read for both. -/
theorem bind_checked {ns ms : List Numeral} {a : α} {b : β} {f : α → Except VersionFault β}
    (h : f a = checked ms b) : checked ns a >>= f = checked (ns ++ ms) b := by
  rw [checked, checked, List.find?_append]
  cases ns.find? fun n => decide (maxWord < n.value) with
  | none =>
    show f a = _
    rw [h, checked, Option.none_or]
  | some n => rfl

theorem map_checked (ns : List Numeral) (a : α) (f : α → β) :
    (checked ns a).map f = checked ns (f a) := by
  unfold checked
  split <;> rfl

theorem mapM_number (ns : List Numeral) :
    (ns.map chars).mapM number = checked ns (ns.map value) := by
  induction ns with
  | nil => rfl
  | cons n ns ih =>
    rw [List.map_cons, List.mapM_cons, number_chars]
    show _ = checked ([n] ++ ns) (n.value :: ns.map value)
    apply bind_checked
    rw [ih, bind_pure_comp]
    exact map_checked ns (ns.map value) (n.value :: ·)

/-! ### Numbers that may be missing -/

/-- The digits of a number that may be missing. -/
def digits (n? : Option Numeral) : List Char :=
  n?.elim [] chars

/-- The value of a number that may be missing, zero where it is. -/
def valueOf (n? : Option Numeral) : ℕ :=
  n?.elim 0 value

theorem suffixNumber_digits (n? : Option Numeral) :
    suffixNumber (digits n?) = checked n?.toList (valueOf n?) := by
  cases n? with
  | none => rfl
  | some n =>
    have hempty : n.chars.isEmpty = false := List.isEmpty_eq_false_iff.2 n.isNumber_chars.ne_nil
    show suffixNumber n.chars = checked [n] n.value
    rw [suffixNumber, hempty, if_neg Bool.false_ne_true, number_chars]

theorem epochNumber_chars (epoch : Option Numeral) :
    epochNumber (epoch.map chars) = checked epoch.toList (valueOf epoch) := by
  cases epoch with
  | none => rfl
  | some n => exact number_chars n

theorem optionalNumber_digits (suffix : Option α) (number : α → Option Numeral) :
    optionalNumber (suffix.map fun a => digits (number a)) =
      checked (suffix.bind number).toList (suffix.map fun a => valueOf (number a)) := by
  cases suffix with
  | none => rfl
  | some a =>
    show (suffixNumber (digits (number a))).map some = checked (number a).toList _
    rw [suffixNumber_digits, map_checked]
    rfl

theorem preNumber_digits (pre : Option α) (phase : α → Phase) (number : α → Option Numeral) :
    preNumber (pre.map fun a => (phase a, digits (number a))) =
      checked (pre.bind number).toList (pre.map fun a => (phase a, valueOf (number a))) := by
  cases pre with
  | none => rfl
  | some a =>
    show (suffixNumber (digits (number a))).map _ = checked (number a).toList _
    rw [suffixNumber_digits, map_checked]
    rfl

end Numeral

end Requisite
