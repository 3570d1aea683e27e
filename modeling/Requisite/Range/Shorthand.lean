import Requisite.Range.Clause

/-!
# Shorthand ranges

`^V` and `~V` stand for the versions from `V` up to the next incompatible release.  The upper
bound comes from at most three release numbers of `V`: one of them is raised by one and those
after it become zero.  The caret raises the first number that is not zero, or the last one if all
are; the tilde raises the second number, or the only one.

* `Shorthand.raised` — the position of the number that is raised;
* `Shorthand.ceiling` — the numbers of the upper bound;
* `Shorthand.expand` — the two clauses of a shorthand.
-/

namespace Requisite

/-- The two shorthands. -/
inductive Shorthand
  | caret
  | tilde
  deriving DecidableEq, Repr

namespace Shorthand

/-- The position of the first number that is not zero, or of the last number. -/
def firstNonzero : List Nat → Nat
  | [] => 0
  | [_] => 0
  | n :: ns => if n = 0 then firstNonzero ns + 1 else 0

/-- The position of the number that a shorthand raises. -/
def raised : Shorthand → List Nat → Nat
  | .caret, parts => firstNonzero parts
  | .tilde, parts => if parts.length > 1 then 1 else 0

/-- The numbers up to a position kept, the number there raised by one and the rest zero. -/
def raiseAt : Nat → List Nat → List Nat
  | _, [] => []
  | 0, n :: ns => (n + 1) :: ns.map fun _ => 0
  | i + 1, n :: ns => n :: raiseAt i ns

/-- The release of the upper bound. -/
def ceiling (kind : Shorthand) (parts : List Nat) : List Nat :=
  raiseAt (kind.raised parts) parts

/-- The epoch as it is written, with its sign. -/
def epochText (cs : List Char) : List Char :=
  match (Spelling.epoch? cs).1 with
  | some digits => digits ++ ['!']
  | none => []

/-- The lower and the upper clause of a shorthand with the given bound.  The bound has to start
with a digit, and the raised number has to stay within a 64-bit word. -/
def expand (kind : Shorthand) (cs : List Char) : Except VersionError (List Clause) := do
  let cs := Text.trim cs
  let lower ← Clause.read .atLeast cs
  if !(cs.headD ' ').isDigit then
    .error ⟨String.ofList cs, .notNumeric⟩
  else
    let parts := lower.bound.release.take 3
    let top := parts.getD (kind.raised parts) 0
    if top = Text.maxWord then
      .error ⟨String.ofList cs, .outOfRange (String.ofList (Text.decimal top))⟩
    else
      let release := kind.ceiling parts
      let upper : Clause := {
        relation := .less
        text := String.ofList (epochText cs ++ Version.dotted release)
        bound := Version.ofRelease lower.bound.epoch release
        wildcard := false }
      .ok [lower, upper]

end Shorthand

end Requisite
