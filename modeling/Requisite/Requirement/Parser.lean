import Requisite.Requirement.Options

/-!
# Reading requirements

A requirement is written as `name[extras] range` for an index, the range in parentheses or not,
or as `name[extras] @ target#fragment`, where the target is a repository behind `git+`, a path
that starts with `/`, `./` or `../`, or a URL.  `; marker` and options may follow.  A bare version
number as a range means equality.

* `Origin.ofTarget` — the origin that a target and its fragment denote;
* `Requirement.parse` — the requirement that a text denotes.
-/

namespace Requisite

open Text

/-- The beginnings of a path. -/
def pathStarts : List String := ["/", "./", "../"]

/-- The beginnings of a target that cannot be mistaken for anything else. -/
def targetStarts : List String := ["git+", "http://", "https://"] ++ pathStarts

/-- A text starts with one of `starts`. -/
def startsWithAny (starts : List String) (cs : List Char) : Bool :=
  starts.any fun s => startsWith s cs

/-- A character of a URL scheme after its first. -/
def isSchemeChar (c : Char) : Bool :=
  c.isAlphanum || c == '+' || c == '.' || c == '-'

/-- A text starts with a URL scheme: a letter, at least one more character, and a colon. -/
def hasScheme (cs : List Char) : Bool :=
  match cs with
  | [] => false
  | c :: cs =>
    c.isAlpha && !(cs.takeWhile isSchemeChar).isEmpty
      && (cs.dropWhile isSchemeChar).head? == some ':'

/-- The pairs of a fragment: `key=value` or `key`, with `&` between them. -/
def fragmentPairs (cs : List Char) : List (List Char × List Char) :=
  ((cs.splitOn '&').filter fun pair => !pair.isEmpty).map fun pair =>
    (cut '=' pair).getD (pair, [])

/-! ### References -/

/-- The selectors of a reference that have been given. -/
structure Selectors where
  rev : Option String
  branch : Option String
  tag : Option String
  deriving DecidableEq, Repr

namespace Selectors

/-- No selector. -/
def none : Selectors := ⟨.none, .none, .none⟩

/-- The selectors with one more; a selector may be given once, and other keys are ignored. -/
def add (s : Selectors) (key value : List Char) : Except DependencyFault Selectors :=
  if key = "rev".toList then
    if s.rev.isSome then .error (.selectorRepeated "rev")
    else .ok { s with rev := some (String.ofList value) }
  else if key = "branch".toList then
    if s.branch.isSome then .error (.selectorRepeated "branch")
    else .ok { s with branch := some (String.ofList value) }
  else if key = "tag".toList then
    if s.tag.isSome then .error (.selectorRepeated "tag")
    else .ok { s with tag := some (String.ofList value) }
  else .ok s

/-- The references that the selectors stand for. -/
def references (s : Selectors) : List Reference :=
  (s.rev.map Reference.rev).toList ++ (s.branch.map Reference.branch).toList
    ++ (s.tag.map Reference.tag).toList

/-- The reference, of which there may be one. -/
def reference (s : Selectors) : Except DependencyFault (Option Reference) :=
  match s.references with
  | [] => .ok .none
  | [r] => .ok (some r)
  | r :: r' :: _ => .error (.selectorsConflict r.key r'.key)

end Selectors

/-! ### Targets -/

/-- The hashes in the fragment of a URL, each with its digest. -/
def fragmentHashes : List (List Char × List Char) → Except DependencyFault (List String)
  | [] => .ok []
  | (algorithm, digest) :: pairs =>
    if digest.isEmpty then .error (.digestMissing (String.ofList algorithm))
    else (fragmentHashes pairs).map (String.ofList (algorithm ++ ':' :: digest) :: ·)

/-- The origin that a target denotes, and the hashes in its fragment. -/
def Origin.ofTarget (target : List Char) : Except DependencyFault (Origin × List String) :=
  let (location, fragment) := (cut '#' target).getD (target, [])
  let pairs := fragmentPairs fragment
  match after? "git+" location with
  | some url => do
    let selectors ← pairs.foldlM (fun s (key, value) => s.add key value) Selectors.none
    let reference ← selectors.reference
    .ok (.repository (String.ofList url) reference, [])
  | none =>
    if startsWithAny pathStarts location then
      let has (flag : String) := pairs.any fun (key, _) => key == flag.toList
      .ok (.directory ⟨String.ofList location⟩ (has "develop") (has "link"), [])
    else if hasScheme location then
      (fragmentHashes pairs).map fun hashes => (.archive (String.ofList location), hashes)
    else .error (.targetUnknown (String.ofList target))

/-- The name and the extras of a text. -/
def readName (cs : List Char) : Except DependencyError (String × List String) :=
  (Name.splitExtras cs).mapError fun
    | .extras => .extras (String.ofList cs)
    | .missing => .invalid (String.ofList cs) .nameMissing
    | .invalid name => .invalid (String.ofList cs) (.nameInvalid name)

/-! ### Ranges -/

/-- A range in front of which a bare version gets a `=`. -/
def readRange (cs : List Char) : Except DependencyError Range :=
  let cs := if (cs.head?.map Char.isDigit).getD false then '=' :: cs else cs
  (Range.read cs).mapError .range

/-- A text without the parentheses around it, if it starts with one. -/
def unwrap (cs : List Char) : Except DependencyFault (List Char) :=
  match cs with
  | '(' :: inner =>
    match before? ")" inner with
    | some body => .ok (trim body)
    | none => .error (.unbalanced (String.ofList cs))
  | _ => .ok cs

/-- The name with its brackets at the start of a text, and what follows it; none if a bracket is
not closed. -/
def nameAndRest? (cs : List Char) : Option (List Char × List Char) :=
  let name := cs.takeWhile Name.isNameChar
  let rest := trimStart (cs.dropWhile Name.isNameChar)
  match rest with
  | '[' :: _ => (cut ']' rest).map fun (bracket, rest) => (name ++ bracket ++ [']'], trim rest)
  | _ => some (name, trim rest)

/-- The registry requirement that a text denotes. -/
def readRegistry (input head : List Char) : Except DependencyError Requirement :=
  match nameAndRest? head with
  | none => .error (.extras (String.ofList head))
  | some (nameText, rest) => do
    let (name, extras) ← readName nameText
    if rest.contains '[' || rest.contains ']' then
      .error (.extras (String.ofList head))
    else
      let body ← (unwrap rest).mapError (.invalid (String.ofList input))
      let range ← readRange body
      .ok { Declared.plain name (Origin.registry range none) with extras }

/-- The requirement that a name and a target denote. -/
def readTarget (input name target : List Char) : Except DependencyError Requirement := do
  let (name, extras) ← readName name
  let (origin, hashes) ← (Origin.ofTarget (trim target)).mapError (.invalid (String.ofList input))
  .ok { Declared.plain name origin with extras, hashes }

/-! ### Requirements -/

/-- The marker after a semicolon, none if it is blank. -/
def readMarkers (cs : List Char) : Option String :=
  let cs := trim cs
  if cs.isEmpty then none else some (String.ofList cs)

/-- The requirement that a text denotes, blanks at its ends ignored. -/
def Requirement.read (cs : List Char) : Except DependencyError Requirement :=
  let input := trim cs
  if startsWithAny targetStarts input then .error (.invalid (String.ofList input) .bareTarget)
  else do
    let (options, text) := Options.split input
    let hashes ← (Options.hashes options).mapError (.invalid (String.ofList input))
    let (head, markers) :=
      match cut ';' text with
      | some (head, markers) => (trim head, readMarkers markers)
      | none => (trim text, none)
    let r ←
      match cut '@' head with
      | some (name, target) => readTarget input name target
      | none => readRegistry input head
    .ok { r with markers, hashes := hashes ++ r.hashes }

/-- The requirement that a text denotes. -/
def Requirement.parse (input : String) : Except DependencyError Requirement :=
  Requirement.read input.toList

end Requisite
