import Std.Data.ExtTreeSet
import Requisite.Marker.Parser
import Requisite.Version.Order
import Requisite.Version.Spelling

/-!
# The value of a marker

A comparison looks at its operands as versions if both denote one, and as texts otherwise.
`extra` tests whether the other side is among the extras that were asked for, and is refused
where no extras are known.  Every part of a condition is evaluated, also where another part has
decided already, so that a part without a value is always reported.

* `Comparison.evaluate`, `Marker.evaluate` — the value in an environment;
* `Environment.evaluate` — the value of a marker that is still a text.
-/

namespace Requisite

/-- A finite set of names. -/
abbrev Names := Std.ExtTreeSet String compare

/-- An environment: the text of every variable. -/
structure Environment where
  valueOf : Variable → String

/-- The text that an operand stands for. -/
def Operand.resolve (env : Environment) : Operand → String
  | .variable v => env.valueOf v
  | .extra => "extra"
  | .literal text => text

/-- The order of two texts: as versions if both denote one, as texts otherwise. -/
def orderOf (a b : String) : Ordering :=
  match Version.parse a, Version.parse b with
  | .ok v, .ok w => compare v w
  | _, _ => compare a b

namespace Comparison

/-- The comparison of `extra` with another text. -/
def evaluateExtra (op : Comparator) (value : String) (extras : Option Names) :
    Except MarkerFault Bool :=
  match extras with
  | none => .error .extraUnavailable
  | some extras =>
    match op with
    | .equal => .ok (extras.contains value)
    | .notEqual => .ok (!extras.contains value)
    | op => .error (.extraOrdered op)

/-- The value of a comparison, or why it has none. -/
def value (env : Environment) (extras : Option Names) (c : Comparison) :
    Except MarkerFault Bool :=
  match c.lhs, c.rhs with
  | .extra, .extra => .error .extraTwice
  | .extra, other => evaluateExtra c.op (other.resolve env) extras
  | other, .extra => evaluateExtra c.op (other.resolve env) extras
  | lhs, rhs => .ok (c.op.holds (orderOf (lhs.resolve env) (rhs.resolve env)))

/-- The value of a comparison; a refusal quotes it. -/
def evaluate (env : Environment) (extras : Option Names) (c : Comparison) :
    Except MarkerError Bool :=
  (c.value env extras).mapError fun fault => ⟨String.ofList c.chars, fault⟩

end Comparison

namespace Marker

mutual

/-- The value of a condition. -/
def evaluate (env : Environment) (extras : Option Names) : Marker → Except MarkerError Bool
  | .compare c => c.evaluate env extras
  | .all ms => evaluateAll env extras ms
  | .any ms => evaluateAny env extras ms

/-- The value of a conjunction; the first part without a value is reported. -/
def evaluateAll (env : Environment) (extras : Option Names) :
    List Marker → Except MarkerError Bool
  | [] => .ok true
  | m :: ms =>
    match evaluate env extras m with
    | .error e => .error e
    | .ok b => (evaluateAll env extras ms).map (b && ·)

/-- The value of an alternative; the first part without a value is reported. -/
def evaluateAny (env : Environment) (extras : Option Names) :
    List Marker → Except MarkerError Bool
  | [] => .ok false
  | m :: ms =>
    match evaluate env extras m with
    | .error e => .error e
    | .ok b => (evaluateAny env extras ms).map (b || ·)

end

end Marker

/-- The value of a marker that is still a text. -/
def Environment.evaluate (env : Environment) (marker : String) (extras : Option Names) :
    Except MarkerError Bool :=
  match Marker.parse marker with
  | .error e => .error e
  | .ok m => m.evaluate env extras

end Requisite
