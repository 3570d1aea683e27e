import Requisite.Toml.Value

/-!
# Writing values

A text is written in the first form of these that fits: between double quotes without an escape,
between apostrophes, the same between three of either, and at last between double quotes with
escapes.  Only the forms with three quotes may have line breaks.

* `Form.of` — the form of a text, `Form.ofKey` — the form of a key that is no bare word;
* `Toml.chars` — a value on one line, apart from the line breaks within its texts;
* `Toml.document` — a table as a document, its tables under headers.
-/

namespace Requisite.Toml

/-! ### Characters -/

/-- A hexadecimal numeral of four digits. -/
def hex4 (n : Nat) : List Char :=
  let digits := (Nat.toDigits 16 n).map Char.toUpper
  List.replicate (4 - digits.length) '0' ++ digits

/-- A control character. -/
def isControl (c : Char) : Bool :=
  c.toNat < 0x20 || c.toNat == 0x7f

/-- A character that only an escape can write. -/
def isUnwritable (c : Char) : Bool :=
  isControl c && c != '\t' && c != '\n'

/-- A character within double quotes as an escape, if it has to be one. -/
def escaped (c : Char) : List Char :=
  if c = '\x08' then ['\\', 'b']
  else if c = '\t' then ['\\', 't']
  else if c = '\n' then ['\\', 'n']
  else if c = '\x0c' then ['\\', 'f']
  else if c = '\r' then ['\\', 'r']
  else if c = '"' then ['\\', '"']
  else if c = '\\' then ['\\', '\\']
  else if isControl c then '\\' :: 'u' :: hex4 c.toNat
  else [c]

/-! ### Forms -/

/-- How a text is quoted. -/
inductive Form
  /-- Between double quotes, with escapes. -/
  | basic
  /-- Between apostrophes, without escapes. -/
  | literal
  /-- Between three double quotes, with escapes and line breaks. -/
  | basicLines
  /-- Between three apostrophes, with line breaks and without escapes. -/
  | literalLines
  deriving DecidableEq, Repr

/-- The length of the longest run of a character; `run` is the length of the one that goes on. -/
def longestRun (quote : Char) (run : Nat) : List Char → Nat
  | [] => run
  | c :: cs =>
    if c = quote then longestRun quote (run + 1) cs else max run (longestRun quote 0 cs)

/-- The form of a text. -/
def Form.of (cs : List Char) : Form :=
  let plain := !cs.any isUnwritable
  let quotes := longestRun '"' 0 cs
  let apostrophes := longestRun '\'' 0 cs
  let lines := cs.contains '\n'
  let unescaped := plain && !cs.contains '\\'
  if unescaped && quotes = 0 && !lines then .basic
  else if plain && apostrophes = 0 && !lines then .literal
  else if unescaped && quotes < 3 then .basicLines
  else if plain && apostrophes < 3 then .literalLines
  else if lines then .basicLines
  else .basic

/-- The form of a key that is no bare word; it stays on one line. -/
def Form.ofKey (cs : List Char) : Form :=
  let plain := !cs.any isUnwritable && !cs.contains '\n'
  if plain && !cs.contains '\\' && !cs.contains '"' then .basic
  else if plain && !cs.contains '\'' then .literal
  else .basic

/-- A text on several lines within three double quotes: line breaks are as they are, and so are
quotes, of which only every third of a run is escaped.  `run` is the number of quotes before. -/
def linesChars (run : Nat) : List Char → List Char
  | [] => []
  | c :: cs =>
    if c = '"' then
      if run = 2 then '\\' :: '"' :: linesChars 0 cs else '"' :: linesChars (run + 1) cs
    else if c = '\n' then '\n' :: linesChars 0 cs
    else escaped c ++ linesChars 0 cs

/-- A line break before a text that has one. -/
def opening (cs : List Char) : List Char :=
  if cs.contains '\n' then ['\n'] else []

/-- A text in a form. -/
def Form.chars (form : Form) (cs : List Char) : List Char :=
  match form with
  | .basic => '"' :: cs.flatMap escaped ++ ['"']
  | .literal => '\'' :: cs ++ ['\'']
  | .basicLines => "\"\"\"".toList ++ opening cs ++ linesChars 0 cs ++ "\"\"\"".toList
  | .literalLines => "'''".toList ++ opening cs ++ cs ++ "'''".toList

/-- A character of a key that needs no quotes. -/
def isBareKeyChar (c : Char) : Bool :=
  c.isAlphanum || c == '_' || c == '-'

/-- A key, in quotes where it needs them. -/
def keyChars (cs : List Char) : List Char :=
  if !cs.isEmpty && cs.all isBareKeyChar then cs else (Form.ofKey cs).chars cs

/-! ### Values -/

mutual

/-- The value on one line. -/
def chars : Toml → List Char
  | .string text => (Form.of text.toList).chars text.toList
  | .integer n => (toString n).toList
  | .float text => text.toList
  | .boolean b => if b then "true".toList else "false".toList
  | .datetime text => text.toList
  | .array items => '[' :: itemChars items ++ [']']
  | .table [] => ['\x7b', '\x7d']
  | .table (e :: es) => '\x7b' :: ' ' :: entryChars (e :: es) ++ [' ', '\x7d']

/-- The items of an array with commas between them. -/
def itemChars : List Toml → List Char
  | [] => []
  | [v] => chars v
  | v :: w :: vs => chars v ++ ',' :: ' ' :: itemChars (w :: vs)

/-- The entries of a table with commas between them. -/
def entryChars : List (String × Toml) → List Char
  | [] => []
  | [(k, v)] => keyChars k.toList ++ " = ".toList ++ chars v
  | (k, v) :: e :: es =>
    keyChars k.toList ++ " = ".toList ++ chars v ++ ',' :: ' ' :: entryChars (e :: es)

end

instance : ToString Toml where
  toString v := String.ofList v.chars

/-! ### Documents -/

/-- A list of tables, which has headers in a document. -/
def isTables : Toml → Bool
  | .array items => !items.isEmpty && items.all fun v => v.kind == "table"
  | _ => false

/-- The dotted key of a path. -/
def pathChars (path : List String) : List Char :=
  ['.'].intercalate (path.map fun key => keyChars key.toList)

/-- The entries of a table that have no header of their own, one a line. -/
def plainEntries (entries : List (String × Toml)) : List Char :=
  entries.flatMap fun (key, v) =>
    if v.kind == "table" || v.isTables then []
    else keyChars key.toList ++ " = ".toList ++ chars v ++ ['\n']

mutual

/-- The tables among the entries of the table at a path, below it. -/
def tables (path : List String) : List (String × Toml) → List Char
  | [] => []
  | (key, v) :: rest => headed (path ++ [key]) v ++ tables path rest

/-- A table, or a list of tables, with its headers. -/
def headed (path : List String) : Toml → List Char
  | .table entries =>
    '[' :: pathChars path ++ [']', '\n'] ++ plainEntries entries ++ tables path entries
  | .array items => if isTables (.array items) then headedItems path items else []
  | _ => []

/-- The tables of a list, each with a header. -/
def headedItems (path : List String) : List Toml → List Char
  | [] => []
  | .table entries :: more =>
    "[[".toList ++ pathChars path ++ "]]\n".toList ++ plainEntries entries ++ tables path entries
      ++ headedItems path more
  | _ :: more => headedItems path more

end

/-- A table as a document: entries with values come before those with tables. -/
def document : Toml → String
  | .table entries => String.ofList (plainEntries entries ++ tables [] entries)
  | _ => ""

end Requisite.Toml
