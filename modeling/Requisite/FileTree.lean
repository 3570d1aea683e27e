import Requisite.Path

/-!
# File trees

A file tree has the locations of its directories and of its files.  A path is followed part by
part from the root or from the current directory; every part but the last has to be a directory,
and so has the last one when a slash follows it.

* `FileTree.follow` — the location that a path leads to;
* `FileTree.isDirectory`, `FileTree.isFile` — what is found there.
-/

namespace Requisite

/-- A place in a file tree: the names on the way from the root. -/
abbrev Location := List (List Char)

/-- The directories and files that there are.  The root is a directory of every tree. -/
structure FileTree where
  directories : List Location
  files : List Location
  deriving DecidableEq, Repr

namespace FileTree

/-- There is a directory at a location. -/
def hasDirectory (t : FileTree) (l : Location) : Bool :=
  l.isEmpty || t.directories.contains l

/-- There is a file at a location. -/
def hasFile (t : FileTree) (l : Location) : Bool :=
  t.files.contains l

/-- The location that some steps lead to.  An empty step and `.` stay in a directory, and `..`
leads to its parent. -/
def walk (t : FileTree) : Location → List (List Char) → Option Location
  | l, [] => some l
  | l, step :: steps =>
    if !t.hasDirectory l then none
    else if step = [] || step = ['.'] then walk t l steps
    else if step = ['.', '.'] then walk t l.dropLast steps
    else
      let next := l ++ [step]
      if t.hasDirectory next || t.hasFile next then walk t next steps else none

/-- The location of an absolute path, as far as its parts are names. -/
def locate (p : Path) : Location :=
  Path.segments p.text.toList

/-- The location that a path leads to from the directory `current`. -/
def follow (t : FileTree) (current : Location) (p : Path) : Option Location :=
  if p.text.isEmpty then none
  else t.walk (if p.isAbsolute then [] else current) (p.text.toList.splitOn '/')

/-- The path leads to a directory. -/
def isDirectory (t : FileTree) (current : Location) (p : Path) : Bool :=
  (t.follow current p).any t.hasDirectory

/-- The path leads to a file. -/
def isFile (t : FileTree) (current : Location) (p : Path) : Bool :=
  (t.follow current p).any t.hasFile

/-! ### Growing a tree -/

/-- The locations on the way to a place, the place included. -/
def ancestors : Location → List Location
  | [] => []
  | name :: rest => [name] :: (ancestors rest).map (name :: ·)

/-- The tree with a directory and its parents. -/
def addDirectory (t : FileTree) (l : Location) : FileTree :=
  { t with directories := t.directories ++ (ancestors l).filter (!t.directories.contains ·) }

/-- The tree with a file and its parents. -/
def addFile (t : FileTree) (l : Location) : FileTree :=
  let t := t.addDirectory l.dropLast
  { t with files := t.files ++ [l] }

/-- The tree of nothing but the root. -/
def empty : FileTree := ⟨[], []⟩

instance : EmptyCollection FileTree := ⟨empty⟩

end FileTree

end Requisite
