import Requisite.Text.Percent
import Requisite.Toml.Float
import Requisite.Toml.Value

/-!
# Numbers, truth values and dates

A value without quotes or brackets is a single word.

* `Toml.scalar?` — the value that a word denotes.
-/

namespace Requisite.Toml

open Text

/-! ### Integers -/

/-- The digits of a text in which single underscores may stand between digits. -/
def plainDigits? (isDigit : Char → Bool) : List Char → Option (List Char)
  | [] => none
  | [c] => if isDigit c then some [c] else none
  | c :: '_' :: cs => if isDigit c then (plainDigits? isDigit cs).map (c :: ·) else none
  | c :: cs => if isDigit c then (plainDigits? isDigit cs).map (c :: ·) else none

/-- The digits of a whole number in decimal, which has no leading zero. -/
def wholeDigits? (cs : List Char) : Option (List Char) :=
  match plainDigits? Char.isDigit cs with
  | some ('0' :: _ :: _) => none
  | digits => digits

/-- The number of some digits. -/
def numberOf (base : Nat) (digits : List Char) : Nat :=
  digits.foldl (fun n c => base * n + (hexValue? c).getD 0) 0

/-- A number without a sign: hexadecimal, octal or binary after `0x`, `0o` or `0b`, decimal
otherwise. -/
def natural? : List Char → Option Nat
  | '0' :: 'x' :: cs => (plainDigits? isHexDigit cs).map (numberOf 16)
  | '0' :: 'o' :: cs => (plainDigits? (fun c => '0' ≤ c && c ≤ '7') cs).map (numberOf 8)
  | '0' :: 'b' :: cs => (plainDigits? (fun c => c == '0' || c == '1') cs).map (numberOf 2)
  | cs => (wholeDigits? cs).map (numberOf 10)

/-- A text without its sign, and whether that is a minus. -/
def signed : List Char → Bool × List Char
  | '-' :: cs => (true, cs)
  | '+' :: cs => (false, cs)
  | cs => (false, cs)

/-- The first number that a signed word of 64 bits has no place for. -/
def wordBound : Nat := 0x8000000000000000

/-- An integer that a signed word of 64 bits holds. -/
def integer? (cs : List Char) : Option Int :=
  match cs with
  | '-' :: ds =>
    match (wholeDigits? ds).map (numberOf 10) with
    | some n => if n ≤ wordBound then some (-n) else none
    | none => none
  | '+' :: ds =>
    match (wholeDigits? ds).map (numberOf 10) with
    | some n => if n < wordBound then some n else none
    | none => none
  | cs =>
    match natural? cs with
    | some n => if n < wordBound then some n else none
    | none => none

/-! ### Fractions -/

/-- The text up to an exponent and the exponent, zero if there is none. -/
def exponent? (cs : List Char) : Option (List Char × Int) :=
  let mantissa := cs.takeWhile fun c => c != 'e' && c != 'E'
  match cs.drop mantissa.length with
  | [] => some (mantissa, 0)
  | _ :: ds =>
    let (negative, ds) := signed ds
    (plainDigits? Char.isDigit ds).map fun ds =>
      let n : Int := numberOf 10 ds
      (mantissa, if negative then -n else n)

/-- The digits before and after the point of a number. -/
def pointed? (cs : List Char) : Option (List Char × List Char) :=
  let whole := cs.takeWhile (· != '.')
  match wholeDigits? whole, cs.drop whole.length with
  | some ds, [] => some (ds, [])
  | some ds, _ :: part => (plainDigits? Char.isDigit part).map fun ps => (ds, ps)
  | none, _ => none

/-- The number that some digits make up and the exponent of the last one. -/
def digitsAndExponent? (cs : List Char) : Option (Nat × Int) :=
  match exponent? cs with
  | none => none
  | some (mantissa, e) =>
    (pointed? mantissa).map fun (whole, part) => (numberOf 10 (whole ++ part), e - part.length)

/-- A float as its canonical text.  It has a point or an exponent, or it is a word. -/
def float? (cs : List Char) : Option String :=
  let (negative, ds) := signed cs
  if ds = "inf".toList then some (if negative then "-inf" else "inf")
  else if ds = "nan".toList then some "nan"
  else if ds.all fun c => c.isDigit || c == '_' then none
  else (digitsAndExponent? ds).bind fun (n, e) => floatText? negative n e

/-! ### Dates and times -/

/-- The number of exactly `count` digits. -/
def fixed? (count : Nat) (cs : List Char) : Option Nat :=
  if cs.length = count && cs.all Char.isDigit then some (numberOf 10 cs) else none

/-- The number of days in a month. -/
def daysIn (year month : Nat) : Nat :=
  if month = 2 then
    if year % 4 = 0 && (year % 100 != 0 || year % 400 = 0) then 29 else 28
  else if month = 4 || month = 6 || month = 9 || month = 11 then 30
  else 31

/-- A date. -/
def isDate (cs : List Char) : Bool :=
  match cs.splitOn '-' with
  | [y, m, d] =>
    match fixed? 4 y, fixed? 2 m, fixed? 2 d with
    | some y, some m, some d => 1 ≤ m && m ≤ 12 && 1 ≤ d && d ≤ daysIn y m
    | _, _, _ => false
  | _ => false

/-- A time without its fraction. -/
def isClock (cs : List Char) : Bool :=
  match cs.splitOn ':' with
  | [h, m, s] =>
    match fixed? 2 h, fixed? 2 m, fixed? 2 s with
    | some h, some m, some s => h < 24 && m < 60 && s ≤ 60
    | _, _, _ => false
  | _ => false

/-- A time as its canonical text: a fraction has at most nine digits, the last of them not zero. -/
def time? (cs : List Char) : Option (List Char) :=
  let clock := cs.takeWhile (· != '.')
  if !isClock clock then none
  else
    match cs.drop clock.length with
    | [] => some clock
    | _ :: part =>
      if part.isEmpty || !part.all Char.isDigit then none
      else
        let part := ((part.take 9).reverse.dropWhile (· == '0')).reverse
        some (if part.isEmpty then clock else clock ++ '.' :: part)

/-- The distance of a time from universal time as its canonical text; no distance has no minus. -/
def offset? (cs : List Char) : Option (List Char) :=
  match cs with
  | [] => some []
  | ['Z'] | ['z'] => some ['Z']
  | sign :: ds =>
    match ds.splitOn ':' with
    | [h, m] =>
      match fixed? 2 h, fixed? 2 m with
      | some hours, some minutes =>
        if (sign = '+' || sign = '-') && hours < 24 && minutes < 60 then
          some ((if hours = 0 && minutes = 0 then '+' else sign) :: ds)
        else none
      | _, _ => none
    | _ => none

/-- A time with its distance from universal time. -/
def zonedTime? (cs : List Char) : Option (List Char) :=
  let time := cs.takeWhile fun c => c.isDigit || c == ':' || c == '.'
  match time? time, offset? (cs.drop time.length) with
  | some t, some o => some (t ++ o)
  | _, _ => none

/-- A date, a time, or both, as its canonical text. -/
def datetime? (cs : List Char) : Option String :=
  let date := cs.take 10
  if isDate date then
    match cs.drop 10 with
    | [] => some (String.ofList date)
    | c :: ds =>
      if c = 'T' || c = 't' || c = ' ' then
        (zonedTime? ds).map fun t => String.ofList (date ++ 'T' :: t)
      else none
  else (time? cs).map String.ofList

/-! ### Words -/

/-- The value that a word denotes. -/
def scalar? (cs : List Char) : Option Toml :=
  if cs = "true".toList then some (.boolean true)
  else if cs = "false".toList then some (.boolean false)
  else
    match integer? cs with
    | some n => some (.integer n)
    | none =>
      match float? cs with
      | some text => some (.float text)
      | none => (datetime? cs).map .datetime

end Requisite.Toml
