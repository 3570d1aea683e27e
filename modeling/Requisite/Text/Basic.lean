/-!
# Blanks, digits, letters and numbers

The classes of characters that several formats share, and the numbers that texts denote.

* `isBlank`, `trim` — the white space of Unicode, and a text without it at its ends;
* `isDecimalDigit` — the digits of every script;
* `lower`, `fold`, `stripLabel?` — letters without regard to case;
* `decimal`, `readWord?`, `readWord?_decimal` — numbers are written and read back.
-/

namespace Requisite.Text

/-! ### Blanks -/

/-- The first and last code points of the runs of blank characters. -/
def blankRanges : List (Nat × Nat) :=
  [(0x9, 0xd), (0x20, 0x20), (0x85, 0x85), (0xa0, 0xa0), (0x1680, 0x1680), (0x2000, 0x200a),
    (0x2028, 0x2029), (0x202f, 0x202f), (0x205f, 0x205f), (0x3000, 0x3000)]

/-- White space of any script: the property *White_Space*, of which core's `Char.isWhitespace` is
the ASCII part less two controls. -/
def isBlank (c : Char) : Bool :=
  blankRanges.any fun (first, last) => first ≤ c.toNat && c.toNat ≤ last

theorem isBlank_of_isWhitespace {c : Char} (h : c.isWhitespace = true) : isBlank c = true := by
  simp only [Char.isWhitespace, Bool.or_eq_true, decide_eq_true_eq] at h
  rcases h with ((rfl | rfl) | rfl) | rfl <;> rfl

/-- The text from its first character that is not blank. -/
def trimStart (cs : List Char) : List Char :=
  cs.dropWhile isBlank

/-- The text up to its last character that is not blank. -/
def trimEnd (cs : List Char) : List Char :=
  (cs.reverse.dropWhile isBlank).reverse

/-- The text without the blanks at its ends. -/
def trim (cs : List Char) : List Char :=
  trimEnd (trimStart cs)

/-! ### Digits -/

/-- The code points of the digits zero, in ascending order.  Every script that has its own digits
places them in one block of ten, zero first. -/
def zeroDigits : List Nat :=
  [0x30, 0x660, 0x6f0, 0x7c0, 0x966, 0x9e6, 0xa66, 0xae6, 0xb66, 0xbe6, 0xc66, 0xce6, 0xd66,
    0xde6, 0xe50, 0xed0, 0xf20, 0x1040, 0x1090, 0x17e0, 0x1810, 0x1946, 0x19d0, 0x1a80,
    0x1a90, 0x1b50, 0x1bb0, 0x1c40, 0x1c50, 0xa620, 0xa8d0, 0xa900, 0xa9d0, 0xa9f0, 0xaa50,
    0xabf0, 0xff10, 0x104a0, 0x10d30, 0x10d40, 0x11066, 0x110f0, 0x11136, 0x111d0, 0x112f0,
    0x11450, 0x114d0, 0x11650, 0x116c0, 0x116d0, 0x116da, 0x11730, 0x118e0, 0x11950, 0x11bf0,
    0x11c50, 0x11d50, 0x11da0, 0x11f50, 0x16a60, 0x16ac0, 0x16b50, 0x16d70, 0x1ccf0, 0x1d7ce,
    0x1d7d8, 0x1d7e2, 0x1d7ec, 0x1d7f6, 0x1e140, 0x1e2f0, 0x1e4f0, 0x1e5f1, 0x1e950, 0x1fbf0]

/-- A digit of some script, from zero to nine: the category *decimal number*. -/
def isDecimalDigit (c : Char) : Bool :=
  c.isDigit || zeroDigits.any fun first => first ≤ c.toNat && c.toNat < first + 10

theorem isDecimalDigit_of_isDigit {c : Char} (h : c.isDigit = true) :
    isDecimalDigit c = true := by
  simp [isDecimalDigit, h]

/-! ### Letters

Names and labels are compared without regard to case.  Lowering changes the letters `A` to `Z`
only.  Matching a label is wider: the long s and the Kelvin sign fold to `s` and `k`. -/

/-- The text with the capitals `A` to `Z` lowered. -/
def lower (cs : List Char) : List Char :=
  cs.map Char.toLower

/-- The lower case letter that a character matches when case is ignored. -/
def fold (c : Char) : Char :=
  if c = '\u017f' then 's' else if c = '\u212a' then 'k' else c.toLower

/-- What follows `label`, a word in lower case, at the start of a text. -/
def stripLabel? : List Char → List Char → Option (List Char)
  | [], cs => some cs
  | _ :: _, [] => none
  | l :: label, c :: cs => if fold c = l then stripLabel? label cs else none

/-- The first of `labels` that a text starts with, and what follows it. -/
def stripOneOf? (labels : List (List Char)) (cs : List Char) :
    Option (List Char × List Char) :=
  labels.findSome? fun label => (stripLabel? label cs).map fun rest => (label, rest)

/-! ### Numbers

Numbers are written in ASCII digits without leading zeros, and read with or without them up to
the bound of a 64-bit word. -/

/-- The largest number that a 64-bit word holds. -/
def maxWord : Nat := 0xffffffffffffffff

/-- A number in decimal digits. -/
def decimal (n : Nat) : List Char :=
  Nat.toDigits 10 n

/-- The number that ASCII digits denote, none above `maxWord`, for an empty text or for any
other character. -/
def readWord? (cs : List Char) : Option Nat :=
  if cs.isEmpty || !cs.all Char.isDigit then none
  else
    let n := Nat.ofDigitChars 10 cs 0
    if n ≤ maxWord then some n else none

theorem readWord?_decimal {n : Nat} (h : n ≤ maxWord) : readWord? (decimal n) = some n := by
  have hd : (decimal n).all Char.isDigit = true :=
    List.all_eq_true.2 fun _ hc => Nat.isDigit_of_mem_toDigits (by decide) (by decide) hc
  have hne : (decimal n).isEmpty = false := by
    simp [decimal, Nat.toDigits_ne_nil]
  have hv : Nat.ofDigitChars 10 (decimal n) 0 = n :=
    Nat.ofDigitChars_toDigits (by decide) (by decide)
  simp only [readWord?, hd, hne, hv, h, Bool.not_true, Bool.or_false, Bool.false_eq_true,
    if_false, if_true]

/-- The number that ASCII digits denote. -/
def readNat? (cs : List Char) : Option Nat :=
  if cs.isEmpty || !cs.all Char.isDigit then none else some (Nat.ofDigitChars 10 cs 0)

end Requisite.Text
