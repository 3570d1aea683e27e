/-!
# Paths

A path is kept as it is written.  Two paths count as equal when they have the same parts:
repeated slashes, a slash at the end and `.` parts make no difference, except that a leading `.`
is a part of its own.

* `Path.parts` — the parts of a path, the root as `/`;
* `Path.same` — equality by parts.
-/

namespace Requisite

/-- A path as it is written. -/
structure Path where
  text : String
  deriving DecidableEq, Repr

namespace Path

/-- A path that starts at the root. -/
def isAbsolute (p : Path) : Bool :=
  p.text.toList.head? == some '/'

/-- The texts between slashes, without empty ones and `.`. -/
def segments (cs : List Char) : List (List Char) :=
  (cs.splitOn '/').filter fun s => !s.isEmpty && s != ['.']

/-- The parts of a path. -/
def parts (p : Path) : List (List Char) :=
  let cs := p.text.toList
  match cs with
  | '/' :: _ => ['/'] :: segments cs
  | ['.'] | '.' :: '/' :: _ => ['.'] :: segments cs
  | _ => segments cs

/-- Paths with the same parts. -/
def same (p q : Path) : Bool :=
  p.parts == q.parts

instance : BEq Path where
  beq := same

instance : ToString Path where
  toString := text

/-- A path below another one; an absolute path stands for itself. -/
def join (p q : Path) : Path :=
  if q.isAbsolute then q
  else if p.text.isEmpty || p.text.toList.getLast? == some '/' then ⟨p.text ++ q.text⟩
  else ⟨p.text ++ "/" ++ q.text⟩

end Path

end Requisite
