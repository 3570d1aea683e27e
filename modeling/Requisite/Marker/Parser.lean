import Requisite.Marker.Token
import Requisite.Reading

/-!
# Reading markers

The grammar of a marker, in which `and` binds tighter than `or`:

    condition   := conjunction ("or" conjunction)*
    conjunction := atom ("and" atom)*
    atom        := "(" condition ")" | operand comparator operand
    operand     := variable | "extra" | text

* `Marker.conditions?` and its companions — one function for each line, on the tokens that are
  left, with the tokens after it, which are fewer;
* `Marker.parse` — the condition that a text denotes.
-/

namespace Requisite.Marker

/-- The tokens of a marker, each with the text from its start on. -/
abbrev Tokens := List (Token × List Char)

/-- A problem at a token. -/
def refuse (problem : MarkerProblem) (text : List Char) : MarkerFault :=
  .located problem (String.ofList text)

/-- The token `t` at the start. -/
def token? (t : Token) : (ts : Tokens) → Option (Reading Unit ts)
  | [] => none
  | (u, text) :: ts => if u = t then some (.first () (u, text) ts) else none

theorem token?_eq_some {t : Token} {ts : Tokens} {r : Reading Unit ts}
    (h : token? t ts = some r) : ∃ text, ts = (t, text) :: r.rest := by
  cases ts with
  | nil => simp [token?] at h
  | cons u ts =>
    by_cases hu : u.1 = t
    · simp only [token?, hu, if_true, Option.some.injEq] at h
      exact ⟨u.2, by rw [← h, ← hu]; rfl⟩
    · simp [token?, hu] at h

/-- The operand at the start. -/
def operand? : (ts : Tokens) → Except MarkerFault (Reading Operand ts)
  | [] => .error (.ended .operand)
  | (.text value, text) :: ts => .ok (.first (.literal value) (.text value, text) ts)
  | (.word name, text) :: ts =>
    if name = "extra" then .ok (.first .extra (.word name, text) ts)
    else
      match Variable.ofName? name with
      | some v => .ok (.first (.variable v) (.word name, text) ts)
      | none => .error (refuse (.unknownVariable name) text)
  | (t, text) :: _ => .error (refuse (.operandExpected t) text)

/-- The comparison sign at the start. -/
def comparator? : (ts : Tokens) → Except MarkerFault (Reading Comparator ts)
  | [] => .error (.ended .comparator)
  | (.comparator op, text) :: ts => .ok (.first op (.comparator op, text) ts)
  | (t, text) :: _ => .error (refuse (.comparatorExpected t) text)

/-- The closing parenthesis at the start. -/
def closing? : (ts : Tokens) → Except MarkerFault (Reading Unit ts)
  | [] => .error (.ended .closing)
  | (.closing, text) :: ts => .ok (.first () (.closing, text) ts)
  | (t, text) :: _ => .error (refuse (.closingExpected t) text)

/-- A second comparison sign is refused. -/
def notChained : Tokens → Except MarkerFault Unit
  | (.comparator _, text) :: _ => .error (refuse .chained text)
  | _ => .ok ()

/-- The comparison at the start. -/
def comparison? (ts : Tokens) : Except MarkerFault (Reading Comparison ts) := do
  let lhs ← operand? ts
  let op ← comparator? lhs.rest
  let rhs ← operand? op.rest
  notChained rhs.rest
  .ok (lhs.append (op.append rhs Prod.mk) fun l (o, r) => ⟨l, o, r⟩)

mutual

/-- The parts of the condition at the start, with `or` between them. -/
def conditions? (ts : Tokens) : Except MarkerFault (Reading (List Marker) ts) :=
  match conjuncts? ts with
  | .error e => .error e
  | .ok r =>
    let part := r.map ofAll
    match token? .or part.rest with
    | none => .ok (part.map ([·]))
    | some sign =>
      have := Nat.lt_trans sign.shorter part.shorter
      match conditions? sign.rest with
      | .error e => .error e
      | .ok more => .ok (part.append (sign.next more) (· :: ·))
termination_by 3 * ts.length + 2

/-- The parts of the conjunction at the start, with `and` between them. -/
def conjuncts? (ts : Tokens) : Except MarkerFault (Reading (List Marker) ts) :=
  match atom? ts with
  | .error e => .error e
  | .ok part =>
    match token? .and part.rest with
    | none => .ok (part.map ([·]))
    | some sign =>
      have := Nat.lt_trans sign.shorter part.shorter
      match conjuncts? sign.rest with
      | .error e => .error e
      | .ok more => .ok (part.append (sign.next more) (· :: ·))
termination_by 3 * ts.length + 1

/-- The atom at the start. -/
def atom? (ts : Tokens) : Except MarkerFault (Reading Marker ts) :=
  match token? .opening ts with
  | none =>
    match comparison? ts with
    | .error e => .error e
    | .ok r => .ok (r.map .compare)
  | some opening =>
    have := opening.shorter
    match conditions? opening.rest with
    | .error e => .error e
    | .ok parts =>
      match closing? parts.rest with
      | .error e => .error e
      | .ok closing => .ok (opening.next ((parts.closed closing).map ofAny))
termination_by 3 * ts.length

end

/-- The condition that all tokens together denote. -/
def ofTokens (ts : Tokens) : Except MarkerFault Marker :=
  match conditions? ts with
  | .error e => .error e
  | .ok r =>
    match r.rest with
    | [] => .ok (ofAny r.value)
    | (t, text) :: _ => .error (refuse (.trailing t) text)

/-- The condition that a text denotes. -/
def read (cs : List Char) : Except MarkerFault Marker :=
  match Token.scan cs with
  | .error e => .error e
  | .ok ts => ofTokens ts

/-- The condition that a text denotes. -/
def parse (marker : String) : Except MarkerError Marker :=
  (read marker.toList).mapError fun fault => { marker, fault }

end Requisite.Marker
