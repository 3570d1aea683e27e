/-!
# Floats

A float of 64 bits without its sign is a multiple of the least positive one, which is two to the
power of -1074.  Here it stands for the number of those units.  Up to `2 ^ 53` units the floats are
as dense as the units; from there on the distance between neighbours doubles with every power of
two.

* `nearestFloat` — the float that is next to a decimal number, of two the one with the even
  significand;
* `shortest` — the decimal number with the fewest digits that no other float is next to;
* `floatText?` — the text of a decimal number after it became a float.
-/

namespace Requisite.Toml

/-! ### Rounding -/

/-- How many units the float after `n` is away. -/
def gap (n : Nat) : Nat :=
  Nat.pow 2 (n.log2 - 52)

/-- A quotient as a whole number; a half goes to the even neighbour. -/
def roundDiv (num den : Nat) : Nat :=
  let q := num / den
  let twice := 2 * (num % den)
  if twice > den || (twice == den && q % 2 == 1) then q + 1 else q

/-- The float that is next to a quotient of units. -/
def nearestQuotient (num den : Nat) : Nat :=
  let g := gap (num / den)
  roundDiv num (den * g) * g

/-- The units in one. -/
def unitsInOne : Nat := Nat.pow 2 1074

/-- The float that is next to `d` times ten to the power of `e`. -/
def nearestFloat (d : Nat) : (e : Int) → Nat
  | .ofNat k => nearestQuotient (d * Nat.pow 10 k * unitsInOne) 1
  | .negSucc k => nearestQuotient (d * unitsInOne) (Nat.pow 10 (k + 1))

/-- The units of the first power of two that is no float any more. -/
def floatBound : Nat := Nat.pow 2 2098

/-! ### The shortest decimal -/

/-- A decimal number: some digits, and the power of ten that they are multiplied with. -/
structure Decimal where
  digits : Nat
  exponent : Int
  deriving DecidableEq, Repr

/-- The ratio of ten to the power of `e` to a quarter of a unit. -/
def ratio : (e : Int) → Nat × Nat
  | .ofNat k => (4 * unitsInOne * Nat.pow 10 k, 1)
  | .negSucc k => (4 * unitsInOne, Nat.pow 10 (k + 1))

/-- The multiple of ten to the power of `e` that is next to the float `n`, if no other float is
nearer to it.  Distances are counted in quarters of a unit, so that half of any gap is a whole
number. -/
def multiple? (n : Nat) (e : Int) : Option Nat :=
  let (num, den) := ratio e
  let g := gap n
  let isEven := n / g % 2 == 0
  let lower := 4 * n - (if n == Nat.pow 2 n.log2 && g > 1 then g else 2 * g)
  let upper := 4 * n + 2 * g
  let isNear (d : Nat) : Bool :=
    if isEven then lower * den ≤ d * num && d * num ≤ upper * den
    else lower * den < d * num && d * num < upper * den
  let d := 4 * n * den / num
  let isBelow := 2 * (4 * n * den) < (2 * d + 1) * num
  if isNear d && (isBelow || !isNear (d + 1)) then some d
  else if isNear (d + 1) then some (d + 1)
  else none

/-- The least power of ten that a float needs. -/
def minExponent : Int := -324

/-- The decimal of a float with an exponent below `minExponent + steps`, the largest that
fits. -/
def shortestBelow (n : Nat) : (steps : Nat) → Decimal
  | 0 => ⟨0, 0⟩
  | k + 1 =>
    match multiple? n (minExponent + k) with
    | some d => ⟨d, minExponent + k⟩
    | none => shortestBelow n k

/-- The decimal with the fewest digits that no other float is next to. -/
def shortest (n : Nat) : Decimal :=
  shortestBelow n 633

/-! ### Texts -/

/-- The text of a decimal number with at least one digit on either side of its point. -/
def Decimal.chars (x : Decimal) : List Char :=
  let digits := Nat.toDigits 10 x.digits ++ List.replicate x.exponent.toNat '0'
  let places := (-x.exponent).toNat
  let padded := List.replicate (places + 1 - digits.length) '0' ++ digits
  let part := padded.drop (padded.length - places)
  padded.take (padded.length - places) ++ '.' :: (if part.isEmpty then ['0'] else part)

/-- Exponents beyond this one, counted from the first digit, are those of zero or of infinity. -/
def maxExponent : Nat := 400

/-- The text of `d` times ten to the power of `e` as a float; a negative number may be
infinite. -/
def floatText? (negative : Bool) (d : Nat) (e : Int) : Option String :=
  let sign := if negative then "-" else ""
  let magnitude := (Nat.toDigits 10 d).length + e
  if d = 0 || magnitude < -maxExponent then some (sign ++ "0.0")
  else if magnitude > maxExponent || floatBound ≤ nearestFloat d e then
    if negative then some "-inf" else none
  else if nearestFloat d e = 0 then some (sign ++ "0.0")
  else some (sign ++ String.ofList (shortest (nearestFloat d e)).chars)

end Requisite.Toml
