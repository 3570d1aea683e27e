import Requisite.Toml.Quotation
import Requisite.Toml.Scalar
import Requisite.Toml.Spelling
import Requisite.Toml.Tree

/-!
# Reading documents

A document has one statement a line: a header, or a dotted key with its value.  Only a list in
brackets and a quoted text may go on over several lines.  Neither keys nor nested lists and tables
go deeper than `maxDepth`.

* `Toml.value?` — the value at the start of a text;
* `Toml.statements?` — the statements of a document;
* `Toml.parse?` — the table that a document denotes.
-/

namespace Requisite.Toml

/-- The most brackets and braces around a value, and the most parts of a key. -/
def maxDepth : Nat := 79

/-! ### Between values -/

/-- The text after blanks of the same line. -/
def skip (cs : List Char) : Remainder cs :=
  .dropping isInlineBlank cs

/-- The text after a comment, up to the end of its line. -/
def afterComment (cs : List Char) : Remainder cs :=
  .dropping isLineChar cs

/-- The text after blanks, line breaks and comments. -/
def skipLines (cs : List Char) : Remainder cs :=
  match cs with
  | [] => .whole []
  | c :: rest =>
    if isInlineBlank c || c = '\n' then (skipLines rest).cons c
    else if c = '#' then
      have := (afterComment rest).notLonger
      ((afterComment rest).trans (skipLines (afterComment rest).rest)).cons c
    else
      match lineBreak? (c :: rest) with
      | some b =>
        have := b.shorter
        b.left.trans (skipLines b.rest)
      | none => .whole (c :: rest)
termination_by cs.length
decreasing_by all_goals (simp only [List.length_cons] at *; omega)

/-- The character `c` at the start, blanks of the same line before it ignored. -/
def mark? (c : Char) (cs : List Char) : Option (Reading Unit cs) :=
  (Reading.item? c (skip cs).rest).map (skip cs).reading

/-- The character `c` at the start, blanks, line breaks and comments before it ignored. -/
def markBelow? (c : Char) (cs : List Char) : Option (Reading Unit cs) :=
  (Reading.item? c (skipLines cs).rest).map (skipLines cs).reading

/-! ### Keys -/

/-- The part of a key at the start, in quotes or not. -/
def keyPart? (cs : List Char) : Option (Reading String cs) :=
  match cs with
  | '"' :: rest => (basic? rest).map fun r => (r.map String.ofList).cons '"'
  | '\'' :: rest => (literal? rest).map fun r => (r.map String.ofList).cons '\''
  | c :: rest =>
    if isBareKeyChar c then some ((Reading.run isBareKeyChar c rest).map String.ofList)
    else none
  | [] => none

/-- The parts of the dotted key at the start, blanks around them ignored. -/
def keyParts? (cs : List Char) : Option (Reading (List String) cs) :=
  match keyPart? (skip cs).rest with
  | none => none
  | some r =>
    let part := (skip cs).reading r
    match mark? '.' part.rest with
    | none => some (part.map ([·]))
    | some dot =>
      have := Nat.lt_trans dot.shorter part.shorter
      (keyParts? dot.rest).map fun more => part.append (dot.next more) (· :: ·)
termination_by cs.length

/-- The dotted key at the start, unless it is too deep. -/
def key? (cs : List Char) : Option (Reading (List String) cs) :=
  (keyParts? cs).filter fun key => key.value.length ≤ maxDepth

/-! ### Values -/

/-- A character of a word. -/
def isWordChar (c : Char) : Bool :=
  isBareKeyChar c || c == '+' || c == '.' || c == ':'

/-- The time after a date, with a blank before it. -/
def timeAfterBlank? (cs : List Char) : Option (Reading (List Char) cs) :=
  match cs with
  | ' ' :: d :: more =>
    if d.isDigit then some (((Reading.run isWordChar d more).map (' ' :: ·)).cons ' ') else none
  | _ => none

/-- The word at the start; a date may have its time after a blank. -/
def word? (cs : List Char) : Option (Reading (List Char) cs) :=
  match cs with
  | [] => none
  | c :: rest =>
    if !isWordChar c then none
    else
      let word := Reading.run isWordChar c rest
      if isDate word.value then
        match timeAfterBlank? word.rest with
        | some time => some (word.append time (· ++ ·))
        | none => some word
      else some word

/-- The value without brackets at the start. -/
def plain? (cs : List Char) : Option (Reading Toml cs) :=
  match quoted? cs with
  | some r => some (r.map .string)
  | none =>
    match word? cs with
    | none => none
    | some r => (scalar? r.value).map fun v => r.map fun _ => v

mutual

/-- The value at the start; `room` is how many brackets and braces there may still be around it. -/
def value? (room : Nat) (cs : List Char) : Option (Reading Toml cs) :=
  match mark? '[' cs, room with
  | some _, 0 => none
  | some r, room + 1 =>
    let opening := r.skipping (skipLines r.rest)
    have := opening.shorter
    (items? room opening.rest).map fun items => opening.append items fun _ => .array
  | none, room =>
    match mark? '\x7b' cs, room with
    | some _, 0 => none
    | some opening, room + 1 =>
      match mark? '\x7d' opening.rest with
      | some closing => some (opening.append closing fun _ _ => .table [])
      | none =>
        have := opening.shorter
        match entries? room opening.rest with
        | none => none
        | some r => (ofEntries? r.value).map fun t => opening.append r fun _ _ => t
    | none, _ => (plain? (skip cs).rest).map (skip cs).reading
termination_by (cs.length, 0)

/-- The items of a list up to its closing bracket, before which a comma may stand; blanks at the
start have been read already. -/
def items? (room : Nat) (cs : List Char) : Option (Reading (List Toml) cs) :=
  match mark? ']' cs with
  | some closing => some (closing.map fun _ => [])
  | none =>
    match value? room cs with
    | none => none
    | some item =>
      match markBelow? ',' item.rest with
      | some r =>
        let comma := r.skipping (skipLines r.rest)
        have := Nat.lt_trans comma.shorter item.shorter
        (items? room comma.rest).map fun more => item.append (comma.next more) (· :: ·)
      | none => (markBelow? ']' item.rest).map fun closing => item.append closing fun v _ => [v]
termination_by (cs.length, 1)

/-- The entries of a table in braces up to its closing brace. -/
def entries? (room : Nat) (cs : List Char) : Option (Reading (List (List String × Toml)) cs) :=
  match key? cs with
  | none => none
  | some k =>
    match mark? '=' k.rest with
    | none => none
    | some sign =>
      let key := k.closed sign
      have := key.shorter
      match value? room key.rest with
      | none => none
      | some value =>
        let entry := key.append value Prod.mk
        match mark? ',' entry.rest with
        | some comma =>
          have := Nat.lt_trans comma.shorter entry.shorter
          (entries? room comma.rest).map fun more => entry.append (comma.next more) (· :: ·)
        | none =>
          (mark? '\x7d' entry.rest).map fun closing => entry.append closing fun e _ => [e]
termination_by (cs.length, 1)

end

/-! ### Statements -/

/-- A line of a document. -/
inductive Statement
  | table (path : List String)
  | item (path : List String)
  | entry (path : List String) (value : Toml)

/-- The header of a table at the start, its first bracket already read. -/
def tableHeader? (cs : List Char) : Option (Reading Statement cs) :=
  (key? cs).bind fun key =>
    (mark? ']' key.rest).map fun closing => (key.closed closing).map .table

/-- The header of an item of a list at the start, its first two brackets already read. -/
def itemHeader? (cs : List Char) : Option (Reading Statement cs) :=
  (key? cs).bind fun key =>
    (mark? ']' key.rest).bind fun inner =>
      (Reading.item? ']' inner.rest).map fun outer => (key.closed (inner.next outer)).map .item

/-- The key at the start with its value. -/
def entry? (cs : List Char) : Option (Reading Statement cs) :=
  (key? cs).bind fun key =>
    (mark? '=' key.rest).bind fun sign =>
      (value? maxDepth sign.rest).map fun value => key.append (sign.next value) .entry

/-- The statement at the start. -/
def statement? (cs : List Char) : Option (Reading Statement cs) :=
  match cs with
  | '[' :: '[' :: rest => (itemHeader? rest).map fun r => r.behind ['[', '[']
  | '[' :: rest => (tableHeader? rest).map fun r => r.cons '['
  | cs => entry? cs

/-- Nothing but blanks and a comment comes before the end of the line. -/
def endsLine (cs : List Char) : Bool :=
  let rest := (skip cs).rest
  let rest := if rest.head? = some '#' then (afterComment rest).rest else rest
  rest.isEmpty || (lineBreak? rest).isSome

/-- The statements of a document. -/
def statements? (cs : List Char) : Option (List Statement) :=
  match skipLines cs with
  | ⟨[], _⟩ => some []
  | ⟨c :: rest, h⟩ =>
    match statement? (c :: rest) with
    | none => none
    | some r =>
      have := Nat.lt_of_lt_of_le r.shorter h
      if endsLine r.rest then (statements? r.rest).map (r.value :: ·) else none
termination_by cs.length

/-! ### Documents -/

/-- The tree after some statements; `header` leads to the table that was opened last. -/
def build? : List String → Tree → List Statement → Option Tree
  | _, t, [] => some t
  | _, t, .table path :: more => (t.open? path).bind fun t => build? path t more
  | _, t, .item path :: more => (t.openItem? path).bind fun t => build? path t more
  | header, t, .entry path value :: more =>
    (t.set? header path value).bind fun t => build? header t more

/-- The table that a document denotes, none if it has a fault. -/
def parse? (text : String) : Option Toml :=
  match statements? (match text.toList with
    | '\ufeff' :: cs => cs
    | cs => cs) with
  | none => none
  | some statements => (build? [] Tree.empty statements).map Tree.finish

end Requisite.Toml
