import Requisite.Json.Basic
import Requisite.Reading
import Requisite.Text.Percent

/-!
# Reading JSON

* `Json.value?` — the value at the start of a text;
* `Json.parse?` — the value that a whole text denotes.

The texts of RFC 8259 and no others are read.  An escape of half a character is one, but the text
that has it cannot be used.
-/

namespace Requisite.Json

open Text

/-- A character that may stand around values. -/
def isSpace (c : Char) : Bool :=
  c == ' ' || c == '\t' || c == '\n' || c == '\r'

/-- The text from its first character that is no space. -/
def skip (cs : List Char) : Remainder cs :=
  .dropping isSpace cs

/-- The character `c` at the start of a text, spaces before it ignored. -/
def mark? (c : Char) (cs : List Char) : Option (Reading Unit cs) :=
  (Reading.item? c (skip cs).rest).map (skip cs).reading

/-! ### Numbers -/

/-- The digits at the start, of which there is at least one. -/
def digits? (cs : List Char) : Option (Reading (List Char) cs) :=
  match cs with
  | [] => none
  | c :: cs => if c.isDigit then some (.run Char.isDigit c cs) else none

/-- The digits at the start, without a leading zero. -/
def whole? (cs : List Char) : Option (Reading (List Char) cs) :=
  (digits? cs).bind fun r =>
    match r.value with
    | '0' :: _ :: _ => none
    | _ => some r

/-- The text after a fraction, if there is one. -/
def afterFraction? (cs : List Char) : Option (Remainder cs) :=
  match cs with
  | '.' :: ds => (digits? ds).map fun r => r.left.cons '.'
  | cs => some (.whole cs)

/-- The text after a sign, if there is one. -/
def afterSign : (cs : List Char) → Remainder cs
  | '+' :: cs => (Remainder.whole cs).cons '+'
  | '-' :: cs => (Remainder.whole cs).cons '-'
  | cs => .whole cs

/-- The text after an exponent, if there is one. -/
def afterExponent? (cs : List Char) : Option (Remainder cs) :=
  match cs with
  | [] => some (.whole [])
  | c :: ds =>
    if c = 'e' || c = 'E' then
      (digits? (afterSign ds).rest).map fun r => ((afterSign ds).trans r.left).cons c
    else some (.whole (c :: ds))

/-- The number without a sign at the start. -/
def unsigned? (cs : List Char) : Option (Reading Json cs) :=
  match whole? cs with
  | none => none
  | some r =>
    match afterFraction? r.rest with
    | none => none
    | some f =>
      match afterExponent? f.rest with
      | none => none
      | some e =>
        let isWhole := e.rest.length == r.rest.length
        some ((r.skipping (f.trans e)).map fun ds =>
          .number (if isWhole then some (Nat.ofDigitChars 10 ds 0) else none))

/-- The number at the start. -/
def number? (cs : List Char) : Option (Reading Json cs) :=
  match cs with
  | '-' :: ds => (unsigned? ds).map fun r => (r.map fun _ => .number none).cons '-'
  | cs => unsigned? cs

/-! ### Texts -/

/-- The character of an escape with a single letter. -/
def escaped? : Char → Option Char
  | '"' => some '"'
  | '\\' => some '\\'
  | '/' => some '/'
  | 'b' => some '\x08'
  | 'f' => some '\x0c'
  | 'n' => some '\n'
  | 'r' => some '\r'
  | 't' => some '\t'
  | _ => none

/-- The code units of a text up to its closing quote. -/
def units? : (cs : List Char) → Option (Reading (List Nat) cs)
  | [] => none
  | '"' :: cs => some (.first [] '"' cs)
  | '\\' :: 'u' :: a :: b :: c :: d :: cs =>
    if [a, b, c, d].all isHexDigit then
      (units? cs).map fun r =>
        (r.map (hexNumber [a, b, c, d] :: ·)).behind ['\\', 'u', a, b, c, d]
    else none
  | '\\' :: c :: cs =>
    match escaped? c with
    | none => none
    | some e => (units? cs).map fun r => (r.map (e.toNat :: ·)).behind ['\\', c]
  | c :: cs =>
    if c.toNat < 0x20 || c = '\\' then none
    else (units? cs).map fun r => (r.map (c.toNat :: ·)).cons c

/-- The first half of a character. -/
def isHigh (n : Nat) : Bool :=
  0xd800 ≤ n && n < 0xdc00

/-- The second half of a character. -/
def isLow (n : Nat) : Bool :=
  0xdc00 ≤ n && n < 0xe000

/-- The characters of code units, none if a half lacks its other half. -/
def characters? : List Nat → Option (List Char)
  | [] => some []
  | [n] => if isHigh n || isLow n then none else some [Char.ofNat n]
  | m :: n :: ns =>
    if isHigh m then
      if isLow n then
        (characters? ns).map (Char.ofNat (0x10000 + 0x400 * (m - 0xd800) + (n - 0xdc00)) :: ·)
      else none
    else if isLow m then none
    else (characters? (n :: ns)).map (Char.ofNat m :: ·)

/-- The text at the start, its opening quote already read. -/
def string? (cs : List Char) : Option (Reading (Option String) cs) :=
  (units? cs).map fun r => r.map fun units => (characters? units).map String.ofList

/-! ### Values -/

/-- A value that is written as a word, at the start of a text. -/
def word? (cs : List Char) : Option (Reading Json cs) :=
  match cs with
  | 'n' :: 'u' :: 'l' :: 'l' :: rest =>
    some ((Reading.first .null 'l' rest).behind ['n', 'u', 'l'])
  | 't' :: 'r' :: 'u' :: 'e' :: rest =>
    some ((Reading.first (.boolean true) 'e' rest).behind ['t', 'r', 'u'])
  | 'f' :: 'a' :: 'l' :: 's' :: 'e' :: rest =>
    some ((Reading.first (.boolean false) 'e' rest).behind ['f', 'a', 'l', 's'])
  | _ => none

/-- The key at the start of a text, and the `:` after it. -/
def key? (cs : List Char) : Option (Reading (Option String) cs) :=
  match mark? '"' cs with
  | none => none
  | some quote =>
    match string? quote.rest with
    | none => none
    | some key => (mark? ':' key.rest).map fun colon => quote.next (key.closed colon)

mutual

/-- The value at the start of a text. -/
def value? (cs : List Char) : Option (Reading Json cs) :=
  match mark? '[' cs with
  | some opening =>
    have := opening.shorter
    match mark? ']' opening.rest with
    | some closing => some (opening.append closing fun _ _ => .array [])
    | none => (items? opening.rest).map fun r => opening.append r fun _ => .array
  | none =>
    match mark? '\x7b' cs with
    | some opening =>
      have := opening.shorter
      match mark? '\x7d' opening.rest with
      | some closing => some (opening.append closing fun _ _ => .object [])
      | none => (entries? opening.rest).map fun r => opening.append r fun _ => .object
    | none =>
      match mark? '"' cs with
      | some quote => (string? quote.rest).map fun r => quote.append r fun _ => .string
      | none => ((word? (skip cs).rest).or (number? (skip cs).rest)).map (skip cs).reading
termination_by (cs.length, 0)

/-- The items of an array up to its closing bracket. -/
def items? (cs : List Char) : Option (Reading (List Json) cs) :=
  match value? cs with
  | none => none
  | some item =>
    match mark? ',' item.rest with
    | some comma =>
      have := Nat.lt_trans comma.shorter item.shorter
      (items? comma.rest).map fun more => item.append (comma.next more) (· :: ·)
    | none => (mark? ']' item.rest).map fun closing => item.append closing fun v _ => [v]
termination_by (cs.length, 1)

/-- The entries of an object up to its closing brace. -/
def entries? (cs : List Char) : Option (Reading (List (Option String × Json)) cs) :=
  match key? cs with
  | none => none
  | some key =>
    have := key.shorter
    match value? key.rest with
    | none => none
    | some value =>
      let entry := key.append value Prod.mk
      match mark? ',' entry.rest with
      | some comma =>
        have := Nat.lt_trans comma.shorter entry.shorter
        (entries? comma.rest).map fun more => entry.append (comma.next more) (· :: ·)
      | none => (mark? '\x7d' entry.rest).map fun closing => entry.append closing fun e _ => [e]
termination_by (cs.length, 1)

end

/-- The value that a whole text denotes. -/
def parse? (cs : List Char) : Option Json :=
  match value? cs with
  | some r => if (skip r.rest).rest.isEmpty then some r.value else none
  | none => none

end Requisite.Json
