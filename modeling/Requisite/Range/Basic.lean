import Requisite.Range.Shorthand

/-!
# Version ranges

A range is a list of clauses, all of which a version has to pass.  It is written as clauses with
commas between them, as a shorthand, or as `*` for no clause at all.

* `Range.parse` — the range that a text denotes;
* `Range.text` — the clauses with commas between them, in which shorthands are spelled out;
* `Range.accepts` — the texts of versions within a range.

Two ranges count as equal when their clauses are written alike.
-/

namespace Requisite

/-- A text that was refused as a range. -/
structure RangeError where
  input : String
  cause : VersionError
  deriving DecidableEq, Repr

/-- The wording of a refusal. -/
def RangeError.message (e : RangeError) : String :=
  "invalid version spec '" ++ e.input ++ "': " ++ e.cause.message

/-- A range, with the text it was written as. -/
structure Range where
  written : String
  clauses : List Clause
  deriving DecidableEq, Repr

namespace Range

/-- Every version. -/
def any : Range := ⟨"*", []⟩

/-- The range without clauses. -/
def isAny (r : Range) : Bool :=
  r.clauses.isEmpty

/-- The clauses of a text that is neither empty nor `*`. -/
def clausesOf (cs : List Char) : Except VersionError (List Clause) :=
  match cs with
  | '^' :: rest => Shorthand.caret.expand rest
  | '~' :: '=' :: _ => terms
  | '~' :: rest => Shorthand.tilde.expand rest
  | _ => terms
where
  /-- The clauses between the commas. -/
  terms : Except VersionError (List Clause) :=
    (cs.splitOn ',').mapM fun term => Clause.ofTerm (Text.trim term)

/-- The range that a text denotes, blanks at its ends ignored. -/
def read (cs : List Char) : Except RangeError Range :=
  let cs := Text.trim cs
  if cs = [] ∨ cs = ['*'] then .ok any
  else
    match clausesOf cs with
    | .ok clauses => .ok ⟨String.ofList cs, clauses⟩
    | .error cause => .error ⟨String.ofList cs, cause⟩

/-- The range that a text denotes. -/
def parse (input : String) : Except RangeError Range :=
  read input.toList

/-- The clauses with commas between them; nothing for the range of all versions. -/
def chars (r : Range) : List Char :=
  [','].intercalate (r.clauses.map Clause.chars)

/-- The clauses with commas between them. -/
def text (r : Range) : String :=
  String.ofList r.chars

/-- Ranges with equally written clauses. -/
instance : BEq Range where
  beq a b := a.chars == b.chars

/-- A version lies within a range, in its normal spelling. -/
def contains (r : Range) (v : Version) : Bool :=
  r.clauses.all fun c => c.admits v (toString v)

/-- The text of a version lies within a range; it has to denote one. -/
def accepts (r : Range) (candidate : String) : Except VersionError Bool :=
  (Version.parse candidate).map fun v => r.clauses.all fun c => c.admits v candidate

end Range

end Requisite
