/-!
# Percent encoding

A character that must not stand in a part of a URL is written as the bytes of its UTF-8 form, each
as `%` with two hexadecimal digits.  Which characters these are depends on the part; characters
outside ASCII and controls always are.  A `%` is never among them, so that a text that is encoded
already stays as it is.

* `percentEncode` — a text with the characters of a set encoded;
* `percentDecode` — the bytes that an encoded text stands for.
-/

namespace Requisite.Text

/-- The value of a hexadecimal digit. -/
def hexValue? (c : Char) : Option Nat :=
  if c.isDigit then some (c.toNat - '0'.toNat)
  else if 'a' ≤ c && c ≤ 'f' then some (c.toNat - 'a'.toNat + 10)
  else if 'A' ≤ c && c ≤ 'F' then some (c.toNat - 'A'.toNat + 10)
  else none

/-- A hexadecimal digit of either case. -/
def isHexDigit (c : Char) : Bool :=
  (hexValue? c).isSome

/-- The number that hexadecimal digits denote. -/
def hexNumber (cs : List Char) : Nat :=
  cs.foldl (fun n c => 16 * n + (hexValue? c).getD 0) 0

/-- A byte as `%` with two capital hexadecimal digits. -/
def percentByte (b : UInt8) : List Char :=
  ['%', (Nat.digitChar (b.toNat / 16)).toUpper, (Nat.digitChar (b.toNat % 16)).toUpper]

/-- Outside ASCII, or a control. -/
def isUnprintable (c : Char) : Bool :=
  c.toNat < 0x20 || 0x7f ≤ c.toNat

/-- A character as it is, or encoded if it belongs to the set `reserved` or is unprintable. -/
def percentChar (reserved : Char → Bool) (c : Char) : List Char :=
  if isUnprintable c || reserved c then (String.utf8EncodeChar c).flatMap percentByte else [c]

/-- The text with the characters of the set `reserved` and the unprintable ones encoded. -/
def percentEncode (reserved : Char → Bool) (cs : List Char) : List Char :=
  cs.flatMap (percentChar reserved)

/-- The code points of the characters, with `%` and two hexadecimal digits read as one. -/
def percentDecode : List Char → List Nat
  | '%' :: a :: b :: cs =>
    match hexValue? a, hexValue? b with
    | some m, some n => (16 * m + n) :: percentDecode cs
    | _, _ => '%'.toNat :: percentDecode (a :: b :: cs)
  | c :: cs => c.toNat :: percentDecode cs
  | [] => []

end Requisite.Text
