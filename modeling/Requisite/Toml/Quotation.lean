import Requisite.Reading
import Requisite.Text.Percent

/-!
# Quoted texts of a document

A text between double quotes has escapes, one between apostrophes has none.  In three of either
quote it may have several lines; a line break right after the opening is dropped.

* `Toml.basic?`, `Toml.literal?` — the text at the start on a single line, its opening quote
  already read;
* `Toml.basicLines?`, `Toml.literalLines?` — the same on several lines.
-/

namespace Requisite.Toml

open Text

/-- A character that may stand in a line: no control but the tab. -/
def isLineChar (c : Char) : Bool :=
  c == '\t' || (0x20 ≤ c.toNat && c.toNat != 0x7f)

/-- The character of an escape with a single letter. -/
def escapedChar? : Char → Option Char
  | 'b' => some '\x08'
  | 't' => some '\t'
  | 'n' => some '\n'
  | 'f' => some '\x0c'
  | 'r' => some '\r'
  | '"' => some '"'
  | '\\' => some '\\'
  | _ => none

/-- The character of a code point in hexadecimal. -/
def codePoint? (cs : List Char) : Option Char :=
  let n := hexNumber cs
  if cs.all isHexDigit && n.isValidChar then some (Char.ofNat n) else none

/-- The character of the escape at the start, its backslash already read. -/
def escape? (cs : List Char) : Option (Reading Char cs) :=
  match cs with
  | 'u' :: a :: b :: c :: d :: rest =>
    (codePoint? [a, b, c, d]).map fun x => (Reading.first x d rest).behind ['u', a, b, c]
  | 'U' :: a :: b :: c :: d :: e :: f :: g :: h :: rest =>
    (codePoint? [a, b, c, d, e, f, g, h]).map fun x =>
      (Reading.first x h rest).behind ['U', a, b, c, d, e, f, g]
  | c :: rest => (escapedChar? c).map fun x => .first x c rest
  | [] => none

/-- The text up to its closing quote. -/
def basic? (cs : List Char) : Option (Reading (List Char) cs) :=
  match cs with
  | [] => none
  | c :: rest =>
    if c = '"' then some (.first [] c rest)
    else if c = '\\' then
      match escape? rest with
      | none => none
      | some e =>
        have := e.shorter
        (basic? e.rest).map fun r => (e.append r (· :: ·)).cons c
    else if isLineChar c then (basic? rest).map fun r => (r.map (c :: ·)).cons c
    else none
termination_by cs.length
decreasing_by all_goals (simp only [List.length_cons] at *; omega)

/-- The text up to its closing apostrophe. -/
def literal? : (cs : List Char) → Option (Reading (List Char) cs)
  | [] => none
  | c :: rest =>
    if c = '\'' then some (.first [] c rest)
    else if isLineChar c then (literal? rest).map fun r => (r.map (c :: ·)).cons c
    else none

/-- Three quotes that close a text, and the quotes before them that belong to it, of which there
are at most two. -/
def closing? (quote : Char) (cs : List Char) : Option (Reading (List Char) cs) :=
  match cs with
  | a :: b :: c :: rest =>
    if a = quote && b = quote && c = quote then
      match rest with
      | d :: e :: tail =>
        if d = quote && e = quote then
          some ((Reading.first [quote, quote] e tail).behind [a, b, c, d])
        else if d = quote then some ((Reading.first [quote] d (e :: tail)).behind [a, b, c])
        else some ((Reading.first [] c (d :: e :: tail)).behind [a, b])
      | [d] =>
        if d = quote then some ((Reading.first [quote] d []).behind [a, b, c])
        else some ((Reading.first [] c [d]).behind [a, b])
      | [] => some ((Reading.first [] c []).behind [a, b])
    else none
  | _ => none

/-- The line break at the start. -/
def lineBreak? (cs : List Char) : Option (Reading Char cs) :=
  match cs with
  | '\n' :: rest => some (.first '\n' '\n' rest)
  | '\r' :: '\n' :: rest => some ((Reading.first '\n' '\n' rest).cons '\r')
  | _ => none

/-- A blank within a line. -/
def isInlineBlank (c : Char) : Bool :=
  c == ' ' || c == '\t'

/-- The text after blanks and line breaks. -/
def skipBlanks (cs : List Char) : Remainder cs :=
  match lineBreak? cs with
  | some b =>
    have := b.shorter
    b.left.trans (skipBlanks b.rest)
  | none =>
    match cs with
    | [] => .whole []
    | c :: rest => if isInlineBlank c then (skipBlanks rest).cons c else .whole (c :: rest)
termination_by cs.length
decreasing_by
  · exact this
  · exact Nat.lt_succ_self _

/-- The text after a backslash at the end of a line, blanks and line breaks ignored. -/
def continued? (cs : List Char) : Option (Remainder cs) :=
  let blanks := Remainder.dropping isInlineBlank cs
  (lineBreak? blanks.rest).map fun b => (blanks.trans b.left).trans (skipBlanks b.rest)

/-- The text on several lines up to its closing quotes. -/
def basicLines? (cs : List Char) : Option (Reading (List Char) cs) :=
  match closing? '"' cs with
  | some r => some r
  | none =>
    match lineBreak? cs with
    | some b =>
      have := b.shorter
      (basicLines? b.rest).map fun r => b.append r (· :: ·)
    | none =>
      match cs with
      | [] => none
      | c :: rest =>
        if c = '\\' then
          match continued? rest with
          | some k =>
            have := k.notLonger
            (basicLines? k.rest).map fun r => (k.reading r).cons c
          | none =>
            match escape? rest with
            | none => none
            | some e =>
              have := e.shorter
              (basicLines? e.rest).map fun r => (e.append r (· :: ·)).cons c
        else if isLineChar c then (basicLines? rest).map fun r => (r.map (c :: ·)).cons c
        else none
termination_by cs.length
decreasing_by
  · exact this
  all_goals (simp only [List.length_cons]; omega)

/-- The text on several lines up to its closing apostrophes. -/
def literalLines? (cs : List Char) : Option (Reading (List Char) cs) :=
  match closing? '\'' cs with
  | some r => some r
  | none =>
    match lineBreak? cs with
    | some b =>
      have := b.shorter
      (literalLines? b.rest).map fun r => b.append r (· :: ·)
    | none =>
      match cs with
      | [] => none
      | c :: rest =>
        if isLineChar c then (literalLines? rest).map fun r => (r.map (c :: ·)).cons c
        else none
termination_by cs.length
decreasing_by
  · exact this
  · exact Nat.lt_succ_self _

/-- The text without a line break at its start. -/
def afterBreak (cs : List Char) : Remainder cs :=
  match lineBreak? cs with
  | some b => b.left
  | none => .whole cs

/-- The quoted text at the start, its quotes included. -/
def quoted? (cs : List Char) : Option (Reading String cs) :=
  match cs with
  | '"' :: '"' :: '"' :: rest =>
    (basicLines? (afterBreak rest).rest).map fun r =>
      (((afterBreak rest).reading r).map String.ofList).behind ['"', '"', '"']
  | '\'' :: '\'' :: '\'' :: rest =>
    (literalLines? (afterBreak rest).rest).map fun r =>
      (((afterBreak rest).reading r).map String.ofList).behind ['\'', '\'', '\'']
  | '"' :: rest => (basic? rest).map fun r => (r.map String.ofList).cons '"'
  | '\'' :: rest => (literal? rest).map fun r => (r.map String.ofList).cons '\''
  | _ => none

end Requisite.Toml
