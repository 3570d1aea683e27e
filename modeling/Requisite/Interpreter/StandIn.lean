import Std.Data.ExtTreeMap
import Requisite.FileTree
import Requisite.Interpreter.Process
import Requisite.Name
import Requisite.Text.Cut

/-!
# A stand-in for an interpreter

An interpreter whose answers are prepared texts.  It keeps a log of its calls, so that what an
operation asks for can be told from what it answers.

* `StandIn.run` — the answer of the stand-in to a call;
* `StandIn.runner` — the interpreters of a file tree in which it is the only one;
* `StandIn.log` — the lines of its log.
-/

namespace Requisite

open Std

/-- An interpreter that does not work. -/
inductive Breakage
  /-- It cannot be started. -/
  | unstartable
  /-- It prints some texts whatever it is asked, and ends. -/
  | deaf (code : Option Nat) (stdout stderr : String)
  deriving DecidableEq, Repr

/-- An interpreter with prepared answers. -/
structure StandIn where
  /-- What it prints as its report. -/
  report : String
  /-- What it prints for distributions, by the collapsed spelling of their names. -/
  stored : ExtTreeMap String String compare := ∅
  /-- The exit code of pip. -/
  pipExit : Nat := 0
  breakage : Option Breakage := none
  /-- What it has written into its log. -/
  logged : List Char := []
  /-- The arguments of the last run of pip, each on a line of its own. -/
  pipArguments : List Char := []

namespace StandIn

/-- The spelling that the text of a distribution is stored under. -/
def key (name : String) : String :=
  String.ofList (Name.collapse (name.toList.reverse.dropWhile (· == '\n')).reverse)

/-- The stand-in with the text of a distribution. -/
def store (i : StandIn) (name text : String) : StandIn :=
  { i with stored := i.stored.insert (String.ofList (Name.collapse name.toList)) text }

/-- The stand-in with another entry in its log. -/
def note (i : StandIn) (words : List String) : StandIn :=
  { i with logged := i.logged ++ (" ".intercalate words).toList ++ ['\n'] }

/-- The lines of the log. -/
def log (i : StandIn) : List String :=
  (Text.lines i.logged).map String.ofList

/-- The arguments of the last run of pip. -/
def pipLines (i : StandIn) : List String :=
  (Text.lines i.pipArguments).map String.ofList

/-- The texts of some distributions as one list. -/
def listing (i : StandIn) (names : List String) : String :=
  "[" ++ ",".intercalate (names.map fun name => i.stored.getD (key name) "null") ++ "]\n"

/-- The words that a call passes to the process. -/
def words : Call → List String
  | .environment => []
  | .distributions names => names
  | .pip arguments => arguments

/-- A call can be passed to a process: none of its words has a NUL in it. -/
def isPassable (call : Call) : Bool :=
  (words call).all fun word => !word.toList.contains '\x00'

/-- The answer to a call of an interpreter that works. -/
def answer (i : StandIn) : Call → Outcome × StandIn
  | .environment => (.finished (some 0) i.report "", i.note ["environment"])
  | .distributions names =>
    (.finished (some 0) (i.listing names) "", i.note ("distributions" :: names))
  | .pip arguments =>
    let i := i.note ("pip" :: arguments)
    (.finished (some (i.pipExit % 256)) "" "",
      { i with pipArguments := arguments.flatMap fun a => a.toList ++ ['\n'] })

/-- The answer to a call. -/
def run (i : StandIn) (call : Call) : Outcome × StandIn :=
  if !isPassable call then (.notStarted, i)
  else
    match i.breakage with
    | some .unstartable => (.notStarted, i)
    | some (.deaf code stdout stderr) => (.finished (code.map (· % 256)) stdout stderr, i)
    | none => i.answer call

/-- The interpreters of a tree in which the stand-in is the file at a location.  No other file can
be started. -/
def runner (tree : FileTree) (location : Location) : Runner StandIn := fun program call i =>
  if tree.follow [] program = some location then i.run call else (.notStarted, i)

/-- A bound on the names that the texts of the stand-in can lead to. -/
def capacity (i : StandIn) : Nat :=
  i.stored.toList.foldl (fun n e => n + e.2.length)
    (match i.breakage with
      | some (.deaf _ stdout _) => stdout.length
      | _ => 0)

end StandIn

end Requisite
