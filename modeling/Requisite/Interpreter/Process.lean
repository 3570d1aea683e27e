import Requisite.Path

/-!
# Running interpreters

An interpreter is asked for a report on itself, for the metadata of distributions, or to run pip.

* `Call`, `Outcome` — a question, and what came of it;
* `Runner` — the way to put a question to an interpreter, with the state that it may change;
* `ProcessError` — the calls without an answer.
-/

namespace Requisite

/-- What an interpreter is called for. -/
inductive Call
  /-- A report on the interpreter and its environment. -/
  | environment
  /-- The metadata of the distributions of some names. -/
  | distributions (names : List String)
  /-- A run of pip. -/
  | pip (arguments : List String)
  deriving DecidableEq, Repr

/-- What came of a call. -/
inductive Outcome
  | notStarted
  /-- The process ended with an exit code, or without one by a signal. -/
  | finished (code : Option Nat) (stdout stderr : String)
  deriving DecidableEq, Repr

/-- The interpreters that there are, by their paths, with a state `ω` that a call may change. -/
abbrev Runner (ω : Type) := Path → Call → ω → Outcome × ω

/-- Why the output of an interpreter was not understood. -/
inductive ProtocolFault
  | report
  | metadata
  | version (found : Nat)
  | count (requested received : Nat)
  deriving DecidableEq, Repr

/-- The version of the report that is understood. -/
def protocolVersion : Nat := 1

/-- The wording of a fault. -/
def ProtocolFault.message : ProtocolFault → String
  | .report => "cannot decode environment report"
  | .metadata => "cannot decode distribution metadata"
  | .version found =>
    "expected protocol version " ++ toString protocolVersion ++ ", got " ++ toString found
  | .count requested received =>
    "requested " ++ toString requested ++ " distributions, received " ++ toString received

/-- Why an interpreter gave no answer. -/
inductive ProcessError
  | notStarted (program : Path)
  | failed (program : Path) (code : Option Nat) (stdout stderr : String)
  | protocol (program : Path) (fault : ProtocolFault)
  deriving DecidableEq, Repr

/-- An exit code as failures show it. -/
def codeText : Option Nat → String
  | none => "None"
  | some n => "Some(" ++ toString n ++ ")"

/-- The wording of a failure.  Why a process was not started is known to the system alone. -/
def ProcessError.message : ProcessError → String
  | .notStarted program => "failed to run " ++ program.text
  | .failed program code _ stderr =>
    program.text ++ " failed (exit code " ++ codeText code ++ "): " ++ stderr
  | .protocol program fault =>
    "unexpected output from " ++ program.text ++ ": " ++ fault.message

/-- The output of a call that ended with the exit code zero. -/
def Runner.output {ω : Type} (run : Runner ω) (program : Path) (call : Call) (s : ω) :
    Except ProcessError String × ω :=
  match run program call s with
  | (.notStarted, s) => (.error (.notStarted program), s)
  | (.finished code stdout stderr, s) =>
    if code = some 0 then (.ok stdout, s)
    else (.error (.failed program code stdout stderr), s)

end Requisite
