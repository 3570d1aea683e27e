import Requisite.Distribution.Basic
import Requisite.Interpreter.Process
import Requisite.Json.Parser
import Requisite.Text.Cut

/-!
# Interpreters

What is known of an interpreter is what it reports on itself: a single JSON record on the last
line of its output that is not blank.

* `Report.parse?` — the report that an output ends with;
* `Interpreter.introspect` — what an interpreter reports on itself;
* `Interpreter.isVirtual` — an interpreter belongs to a virtual environment;
* `Registry.interpreter` — the same, asked once for each path.
-/

namespace Requisite

/-- The report of an interpreter on itself. -/
structure Report where
  protocol : Nat
  executable : Option Path
  version : String
  platform : String
  /-- The directory that packages are installed into. -/
  home : Path
  /-- The directory of the installation that a virtual environment is based on. -/
  baseHome : Option Path
  /-- The same, as older virtual environments have it. -/
  realHome : Option Path
  environment : Environment

/-- The environment that a record of all its variables denotes. -/
def Environment.ofJson? (j : Json) : Option Environment :=
  match Json.record? (Variable.all.map Variable.name) Variable.all.length j with
  | none => none
  | some fields =>
    if Variable.all.all fun v => (fields.text? v.name).isSome then
      some ⟨fun v => (fields.text? v.name).getD ""⟩
    else none

namespace Report

/-- The keys of a report. -/
def keys : List String :=
  ["protocol", "executable", "version", "platform", "prefix", "base_prefix", "real_prefix",
    "pep508"]

/-- The number of a field, which has to fit 32 bits. -/
def word? (fields : Json.Fields) (key : String) : Option Nat :=
  match fields.lookup key with
  | some (.number (some n)) => if n ≤ 0xffffffff then some n else none
  | _ => none

/-- The report that a record denotes. -/
def ofJson? (j : Json) : Option Report := do
  let fields ← Json.record? keys keys.length j
  let protocol ← word? fields "protocol"
  let executable ← fields.optional? "executable"
  let version ← fields.text? "version"
  let platform ← fields.text? "platform"
  let home ← fields.text? "prefix"
  let baseHome ← fields.optional? "base_prefix"
  let realHome ← fields.optional? "real_prefix"
  let environment ← (fields.lookup "pep508").bind Environment.ofJson?
  some {
    protocol, version, platform, environment
    executable := executable.map Path.mk
    home := ⟨home⟩
    baseHome := baseHome.map Path.mk
    realHome := realHome.map Path.mk }

/-- The report that an output ends with. -/
def parse? (output : String) : Option Report :=
  (Json.parse? (Text.lastLine output.toList)).bind ofJson?

end Report

/-- An interpreter and its report. -/
structure Interpreter where
  /-- The path that the interpreter is called by. -/
  executable : Path
  report : Report

namespace Interpreter

/-- The environment that markers are evaluated in. -/
def environment (i : Interpreter) : Environment :=
  i.report.environment

/-- The interpreter belongs to a virtual environment: it is based on another directory than the
one that packages are installed into. -/
def isVirtual (i : Interpreter) : Bool :=
  i.report.realHome.isSome || i.report.baseHome.any fun base => !base.same i.report.home

/-- The interpreter with the report that its output ends with. -/
def ofOutput (executable : Path) (output : String) : Except ProcessError Interpreter :=
  match Report.parse? output with
  | none => .error (.protocol executable .report)
  | some report =>
    if report.protocol = protocolVersion then .ok ⟨executable, report⟩
    else .error (.protocol executable (.version report.protocol))

/-- What an interpreter reports on itself. -/
def introspect {ω : Type} (run : Runner ω) (executable : Path) (s : ω) :
    Except ProcessError Interpreter × ω :=
  match run.output executable .environment s with
  | (.error e, s) => (.error e, s)
  | (.ok output, s) => (ofOutput executable output, s)

end Interpreter

/-- The interpreters that have reported on themselves. -/
abbrev Registry := List Interpreter

namespace Registry

/-- The interpreter at a path, if it has reported on itself. -/
def find? (known : Registry) (executable : Path) : Option Interpreter :=
  List.find? (fun i => i.executable.same executable) known

/-- The interpreter at a path.  It is asked for a report if it has not given one before. -/
def interpreter {ω : Type} (run : Runner ω) (executable : Path) (known : Registry) (s : ω) :
    Except ProcessError Interpreter × Registry × ω :=
  match known.find? executable with
  | some i => (.ok i, known, s)
  | none =>
    match Interpreter.introspect run executable s with
    | (.error e, s) => (.error e, known, s)
    | (.ok i, s) => (.ok i, known ++ [i], s)

end Registry

end Requisite
