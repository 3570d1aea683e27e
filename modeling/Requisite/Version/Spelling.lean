import Requisite.Text.Basic
import Requisite.Version.Basic

/-!
# Reading versions

A version is spelled as an optional `v`, an epoch before `!`, dotted numbers, and the suffixes in
their order.  Each suffix has several labels, in any letter case, with a `-`, `_` or `.` allowed
before and after the label, and its number may be missing.  A text is first taken apart into its
written pieces, and then the numbers of the pieces are read.

* `Spelling.read?` — the pieces of a text that is spelled like a version;
* `Version.parse` — the version that a text denotes, surrounding blanks ignored;
* `VersionError` — the texts that denote none, and why.
-/

namespace Requisite

/-- Why a text is not a version, or not a version that fits its place. -/
inductive VersionFault
  /-- The text is not spelled like a version. -/
  | malformed
  /-- A number has foreign digits or does not fit a 64-bit word. -/
  | outOfRange (number : String)
  /-- A compatible release needs two release numbers. -/
  | releaseTooShort
  /-- A clause without text. -/
  | emptyClause
  /-- A clause that starts with neither a relation nor a digit. -/
  | relationMissing
  /-- A shorthand bound that does not start with a digit. -/
  | notNumeric
  deriving DecidableEq, Repr

/-- The wording of a fault. -/
def VersionFault.message : VersionFault → String
  | .malformed => "not a PEP 440 version"
  | .outOfRange number => "number out of range: " ++ number
  | .releaseTooShort => "~= requires at least two release components"
  | .emptyClause => "empty version term"
  | .relationMissing => "expected a comparison operator"
  | .notNumeric => "expected a dotted numeric version"

/-- A text that was refused as a version. -/
structure VersionError where
  input : String
  fault : VersionFault
  deriving DecidableEq, Repr

/-- The wording of a refusal. -/
def VersionError.message (e : VersionError) : String :=
  "invalid version '" ++ e.input ++ "': " ++ e.fault.message

/-- The written pieces of a version.  A suffix number that is not written is the empty text. -/
structure Spelling where
  epoch : Option (List Char)
  release : List (List Char)
  pre : Option (Phase × List Char)
  post : Option (List Char)
  dev : Option (List Char)
  label : Option (List Char)
  deriving DecidableEq, Repr

namespace Spelling

open Text

/-- The characters that may stand around a suffix label. -/
def isSeparator (c : Char) : Bool :=
  c == '-' || c == '_' || c == '.'

/-- The text after at most one separator. -/
def skipSeparator : List Char → List Char
  | [] => []
  | c :: cs => if isSeparator c then cs else c :: cs

/-- The text after an optional `v`. -/
def skipLetter : List Char → List Char
  | [] => []
  | c :: cs => if c = 'v' || c = 'V' then cs else c :: cs

/-- A run of decimal digits and what follows it. -/
def digits (cs : List Char) : List Char × List Char :=
  cs.span isDecimalDigit

/-- The epoch, if a run of digits is followed by `!`. -/
def epoch? (cs : List Char) : Option (List Char) × List Char :=
  match digits cs with
  | (d :: ds, '!' :: rest) => (some (d :: ds), rest)
  | _ => (none, cs)

/-- The numbers of a release that has begun: `digits` are those of its current number in
reverse. -/
def moreRelease (digits : List Char) : List Char → List (List Char) × List Char
  | [] => ([digits.reverse], [])
  | [c] => if isDecimalDigit c then ([(c :: digits).reverse], []) else ([digits.reverse], [c])
  | c :: d :: cs =>
    if isDecimalDigit c then moreRelease (c :: digits) (d :: cs)
    else if c = '.' && isDecimalDigit d then
      let (numbers, rest) := moreRelease [] (d :: cs)
      (digits.reverse :: numbers, rest)
    else ([digits.reverse], c :: d :: cs)

/-- The dotted numbers at the start of a text, at least one, and what follows them. -/
def release? : List Char → Option (List (List Char) × List Char)
  | [] => none
  | c :: cs => if isDecimalDigit c then some (moreRelease [] (c :: cs)) else none

/-- The labels of the pre-releases, a longer label before its beginnings. -/
def preLabels : List (List Char) :=
  ["alpha".toList, ['a'], "beta".toList, ['b'], "preview".toList, "pre".toList, ['r', 'c'], ['c']]

/-- The phase that a label stands for. -/
def phaseOf (label : List Char) : Phase :=
  if label = "alpha".toList || label = ['a'] then .alpha
  else if label = "beta".toList || label = ['b'] then .beta
  else .candidate

/-- The labels of the post-releases, a longer label before its beginnings. -/
def postLabels : List (List Char) :=
  ["post".toList, "rev".toList, ['r']]

/-- The label of the development releases. -/
def devLabels : List (List Char) :=
  ["dev".toList]

/-- A suffix: an optional separator, one of the labels, an optional separator and a number that
may be missing. -/
def suffix? (labels : List (List Char)) (cs : List Char) :
    Option (List Char × List Char × List Char) :=
  (stripOneOf? labels (skipSeparator cs)).map fun (label, rest) =>
    let (number, rest) := digits (skipSeparator rest)
    (label, number, rest)

/-- The pre-release suffix, if there is one. -/
def pre? (cs : List Char) : Option (Phase × List Char) × List Char :=
  match suffix? preLabels cs with
  | some (label, number, rest) => (some (phaseOf label, number), rest)
  | none => (none, cs)

/-- The post-release suffix, if there is one: a number after `-`, or a labelled suffix. -/
def post? (cs : List Char) : Option (List Char) × List Char :=
  match cs with
  | '-' :: d :: rest =>
    if isDecimalDigit d then
      let (number, rest) := digits (d :: rest)
      (some number, rest)
    else labelled
  | _ => labelled
where
  /-- The labelled form. -/
  labelled : Option (List Char) × List Char :=
    match suffix? postLabels cs with
    | some (_, number, rest) => (some number, rest)
    | none => (none, cs)

/-- The development suffix, if there is one. -/
def dev? (cs : List Char) : Option (List Char) × List Char :=
  match suffix? devLabels cs with
  | some (_, number, rest) => (some number, rest)
  | none => (none, cs)

/-- A letter or digit of a local label, case ignored. -/
def isLabelChar (c : Char) : Bool :=
  (fold c).isAlphanum

/-- A local label: separated pieces of letters and digits, none empty. -/
def isLabel (cs : List Char) : Bool :=
  (cs.splitOnP isSeparator).all fun piece => !piece.isEmpty && piece.all isLabelChar

/-- The local label that a text consists of, if it is one with its sign or nothing at all. -/
def label? : List Char → Option (Option (List Char))
  | [] => some none
  | c :: cs => if c = '+' && isLabel cs then some (some cs) else none

/-- The pieces of a text that is spelled like a version. -/
def read? (cs : List Char) : Option Spelling := do
  let (epoch, cs) := epoch? (skipLetter cs)
  let (release, cs) ← release? cs
  let (pre, cs) := pre? cs
  let (post, cs) := post? cs
  let (dev, cs) := dev? cs
  let label ← label? cs
  some { epoch, release, pre, post, dev, label }

/-- The number that digits denote. -/
def number (cs : List Char) : Except VersionFault Nat :=
  match readWord? cs with
  | some n => .ok n
  | none => .error (.outOfRange (String.ofList cs))

/-- The number of a suffix, zero if it is not written. -/
def suffixNumber (cs : List Char) : Except VersionFault Nat :=
  if cs.isEmpty then .ok 0 else number cs

/-- The version with the given pieces; the first number that is out of range is the fault. -/
def version (s : Spelling) : Except VersionFault Version := do
  let epoch ← match s.epoch with
    | some e => number e
    | none => .ok 0
  let release ← s.release.mapM number
  let pre ← match s.pre with
    | some (phase, n) => (suffixNumber n).map fun n => some (phase, n)
    | none => .ok none
  let post ← match s.post with
    | some n => (suffixNumber n).map some
    | none => .ok none
  let dev ← match s.dev with
    | some n => (suffixNumber n).map some
    | none => .ok none
  .ok { epoch, release, pre, post, dev, label := s.label.map fun l => String.ofList (lower l) }

end Spelling

/-- The version that a text denotes, blanks at its ends ignored. -/
def Version.read (cs : List Char) : Except VersionFault Version :=
  match Spelling.read? (Text.trim cs) with
  | some spelling => spelling.version
  | none => .error .malformed

/-- The version that a text denotes. -/
def Version.parse (input : String) : Except VersionError Version :=
  (Version.read input.toList).mapError fun fault => { input, fault }

end Requisite
