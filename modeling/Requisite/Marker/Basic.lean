/-!
# Environment markers

A marker is a condition on the environment that a dependency is installed into: comparisons of
environment variables with texts, joined by `and` and `or`.  The pseudo-variable `extra` stands
for the extras that were asked for.

* `Marker` — conditions as trees;
* `Marker.chars` — a condition as it is written, with parentheses around an `or` within an `and`
  and nowhere else.
-/

namespace Requisite

/-- The variables that describe an environment. -/
inductive Variable
  | pythonVersion
  | pythonFullVersion
  | osName
  | sysPlatform
  | platformRelease
  | platformSystem
  | platformMachine
  | platformPythonImplementation
  | implementationName
  | implementationVersion
  deriving DecidableEq, Repr

namespace Variable

/-- Every variable. -/
def all : List Variable :=
  [.pythonVersion, .pythonFullVersion, .osName, .sysPlatform, .platformRelease, .platformSystem,
    .platformMachine, .platformPythonImplementation, .implementationName, .implementationVersion]

/-- The name of a variable in a marker. -/
def name : Variable → String
  | .pythonVersion => "python_version"
  | .pythonFullVersion => "python_full_version"
  | .osName => "os_name"
  | .sysPlatform => "sys_platform"
  | .platformRelease => "platform_release"
  | .platformSystem => "platform_system"
  | .platformMachine => "platform_machine"
  | .platformPythonImplementation => "platform_python_implementation"
  | .implementationName => "implementation_name"
  | .implementationVersion => "implementation_version"

/-- The variable of a name. -/
def ofName? (name : String) : Option Variable :=
  all.find? fun v => v.name == name

theorem mem_all (v : Variable) : v ∈ all := by
  cases v <;> decide

theorem ofName?_name (v : Variable) : ofName? v.name = some v := by
  cases v <;> decide

end Variable

/-- The comparisons that a marker can make. -/
inductive Comparator
  | equal
  | notEqual
  | less
  | atMost
  | greater
  | atLeast
  deriving DecidableEq, Repr

namespace Comparator

/-- The sign of a comparison. -/
def sign : Comparator → String
  | .equal => "=="
  | .notEqual => "!="
  | .less => "<"
  | .atMost => "<="
  | .greater => ">"
  | .atLeast => ">="

/-- The comparison holds between two values in the given order. -/
def holds : Comparator → Ordering → Bool
  | .equal, o => o == .eq
  | .notEqual, o => o != .eq
  | .less, o => o == .lt
  | .atMost, o => o != .gt
  | .greater, o => o == .gt
  | .atLeast, o => o != .lt

end Comparator

/-- One side of a comparison. -/
inductive Operand
  | variable (v : Variable)
  | extra
  | literal (text : String)
  deriving DecidableEq, Repr

/-- The operand as it is written.  A literal stands in double quotes, or in single quotes if it
contains a double one. -/
def Operand.chars : Operand → List Char
  | .variable v => v.name.toList
  | .extra => "extra".toList
  | .literal text =>
    if '"' ∈ text.toList then '\'' :: text.toList ++ ['\''] else '"' :: text.toList ++ ['"']

/-- A comparison of two operands. -/
structure Comparison where
  lhs : Operand
  op : Comparator
  rhs : Operand
  deriving DecidableEq, Repr

/-- The comparison as it is written. -/
def Comparison.chars (c : Comparison) : List Char :=
  c.lhs.chars ++ ' ' :: c.op.sign.toList ++ ' ' :: c.rhs.chars

/-- A condition on an environment. -/
inductive Marker
  | compare (c : Comparison)
  | all (parts : List Marker)
  | any (parts : List Marker)
  deriving Repr

namespace Marker

/-- An alternative of several conditions. -/
def isAny : Marker → Bool
  | .any _ => true
  | _ => false

/-- A condition within parentheses. -/
def enclosed (cs : List Char) : List Char :=
  '(' :: cs ++ [')']

mutual

/-- The condition as it is written. -/
def chars : Marker → List Char
  | .compare c => c.chars
  | .all [] => []
  | .all (m :: ms) => (if m.isAny then enclosed m.chars else m.chars) ++ charsAnd ms
  | .any [] => []
  | .any (m :: ms) => m.chars ++ charsOr ms

/-- Further parts of a conjunction. -/
def charsAnd : List Marker → List Char
  | [] => []
  | m :: ms =>
    " and ".toList ++ (if m.isAny then enclosed m.chars else m.chars) ++ charsAnd ms

/-- Further parts of an alternative. -/
def charsOr : List Marker → List Char
  | [] => []
  | m :: ms => " or ".toList ++ m.chars ++ charsOr ms

end

instance : ToString Marker where
  toString m := String.ofList m.chars

mutual

/-- Equality of conditions as trees. -/
protected def beq : Marker → Marker → Bool
  | .compare a, .compare b => a == b
  | .all ms, .all ns => Marker.beqList ms ns
  | .any ms, .any ns => Marker.beqList ms ns
  | _, _ => false

/-- Equality of lists of conditions. -/
protected def beqList : List Marker → List Marker → Bool
  | [], [] => true
  | m :: ms, n :: ns => Marker.beq m n && Marker.beqList ms ns
  | _, _ => false

end

instance : BEq Marker where
  beq := Marker.beq

/-- A conjunction; a single part stands for itself. -/
def ofAll : List Marker → Marker
  | [m] => m
  | ms => .all ms

/-- An alternative; a single part stands for itself. -/
def ofAny : List Marker → Marker
  | [m] => m
  | ms => .any ms

end Marker

end Requisite
