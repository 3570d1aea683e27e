import Requisite.Text.Basic

/-!
# Version numbers

A version has an epoch, a release of dotted numbers, and optional suffixes: a pre-release phase
with its number, a post-release, a development release, and a local label.

* `Version.chars` — the normal spelling, with epoch zero left out;
* `Version.isPrerelease`, `Version.isPostrelease` — which suffixes a version carries;
* `Version.common` — the version without its local label.
-/

namespace Requisite

/-- The phases before a final release, in ascending order. -/
inductive Phase
  | alpha
  | beta
  | candidate
  deriving DecidableEq, Repr

/-- The label of a phase in the normal spelling. -/
def Phase.label : Phase → List Char
  | .alpha => ['a']
  | .beta => ['b']
  | .candidate => ['r', 'c']

/-- The position of a phase among the phases. -/
def Phase.rank : Phase → Nat
  | .alpha => 0
  | .beta => 1
  | .candidate => 2

/-- A version number. -/
structure Version where
  epoch : Nat
  release : List Nat
  pre : Option (Phase × Nat)
  post : Option Nat
  dev : Option Nat
  label : Option String
  deriving DecidableEq, Repr

namespace Version

/-- The version of an epoch and a release, without suffixes. -/
def ofRelease (epoch : Nat) (release : List Nat) : Version :=
  { epoch, release, pre := none, post := none, dev := none, label := none }

/-- Dotted numbers. -/
def dotted (parts : List Nat) : List Char :=
  ['.'].intercalate (parts.map Text.decimal)

/-- The normal spelling: `E!R.R.R`, then `aN`, `bN` or `rcN`, `.postN`, `.devN` and `+label`, each
only where the version has it. -/
def chars (v : Version) : List Char :=
  (if v.epoch = 0 then [] else Text.decimal v.epoch ++ ['!'])
    ++ dotted v.release
    ++ (match v.pre with
      | some (phase, n) => phase.label ++ Text.decimal n
      | none => [])
    ++ (match v.post with
      | some n => ".post".toList ++ Text.decimal n
      | none => [])
    ++ (match v.dev with
      | some n => ".dev".toList ++ Text.decimal n
      | none => [])
    ++ (match v.label with
      | some l => '+' :: l.toList
      | none => [])

instance : ToString Version where
  toString v := String.ofList v.chars

/-- A pre-release or a development release. -/
def isPrerelease (v : Version) : Bool :=
  v.pre.isSome || v.dev.isSome

/-- A post-release. -/
def isPostrelease (v : Version) : Bool :=
  v.post.isSome

/-- The version without its local label. -/
def common (v : Version) : Version :=
  { v with label := none }

@[simp] theorem label_common (v : Version) : v.common.label = none := rfl

@[simp] theorem common_common (v : Version) : v.common.common = v.common := rfl

end Version

end Requisite
