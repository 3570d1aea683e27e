import Requisite.FileTree

/-!
# Finding an interpreter

A bare name such as `python3` is looked for in the directories of the search path, in their order.
Any other path is made absolute, and no link in it is followed, since the interpreter of a virtual
environment usually is a link.

* `Surroundings.absolute` — a path made absolute;
* `Surroundings.resolve` — the file that a name or a path of an interpreter denotes.
-/

namespace Requisite

/-- Where a name is looked for: the file tree, the current directory and the search path. -/
structure Surroundings where
  tree : FileTree
  /-- The current directory, an absolute path. -/
  current : Path
  /-- The directories of the search path with `:` between them; none is the same as an empty
  text. -/
  searchPath : Option String

/-- There is no such interpreter. -/
structure ExecutableNotFound where
  executable : Path
  deriving DecidableEq, Repr

/-- The wording of a failure. -/
def ExecutableNotFound.message (e : ExecutableNotFound) : String :=
  "Python executable not found: " ++ e.executable.text

namespace Path

/-- A single name, which is looked for on the search path. -/
def isBare (p : Path) : Bool :=
  !p.isAbsolute && p.parts.length == 1

/-- A path ends with a slash. -/
def endsInSlash (p : Path) : Bool :=
  p.text.toList.getLast? == some '/'

/-- The root of an absolute path; exactly two slashes are a root of their own. -/
def root (p : Path) : Path :=
  match p.text.toList with
  | '/' :: '/' :: '/' :: _ => ⟨"/"⟩
  | '/' :: '/' :: _ => ⟨"//"⟩
  | _ => ⟨"/"⟩

/-- A path with some names below it. -/
def below (p : Path) (names : List (List Char)) : Path :=
  names.foldl (fun p name => p.join ⟨String.ofList name⟩) p

end Path

namespace Surroundings

/-- The path leads to a file. -/
def isFile (w : Surroundings) (p : Path) : Bool :=
  w.tree.isFile (FileTree.locate w.current) p

/-- A path made absolute: without empty parts and `.`, and with `..` and a slash at its end
kept. -/
def absolute (w : Surroundings) (p : Path) : Path :=
  let start := if p.isAbsolute then p.root else w.current
  let q := start.below (Path.segments p.text.toList)
  if p.endsInSlash then q.join ⟨""⟩ else q

/-- The directories of the search path. -/
def searched (w : Surroundings) : List Path :=
  ((w.searchPath.getD "").toList.splitOn ':').map fun cs => ⟨String.ofList cs⟩

/-- The paths that an executable may stand for, in the order in which they are tried. -/
def candidates (w : Surroundings) (executable : Path) : List Path :=
  if executable.isBare then w.searched.map (·.join executable)
  else if executable.text.isEmpty then []
  else [w.absolute executable]

/-- The first of the paths at which there is a file. -/
def resolve (w : Surroundings) (executable : Path) : Except ExecutableNotFound Path :=
  match (w.candidates executable).find? w.isFile with
  | some p => .ok p
  | none => .error ⟨executable⟩

end Surroundings

end Requisite
