import Requisite.Marker.Basic
import Requisite.Text.Basic
import Requisite.Text.Cut

/-!
# The tokens of a marker

A marker is read as words, quoted texts, comparison signs and parentheses, with blanks between
them where they are wanted.

* `Token.next` — the first token of a text, or the reason why there is none;
* `Token.scan` — the tokens of a text, each with the text from its start on, which refusals quote;
* `MarkerFault` — the texts that are no markers, and the markers that have no value.
-/

namespace Requisite

/-- A token of a marker. -/
inductive Token
  | word (name : String)
  | text (value : String)
  | comparator (op : Comparator)
  | and
  | or
  | opening
  | closing
  deriving DecidableEq, Repr

/-- What a refusal calls a token. -/
def Token.describe : Token → String
  | .word name => "identifier '" ++ name ++ "'"
  | .text value => "string '" ++ value ++ "'"
  | .comparator op => "operator '" ++ op.sign ++ "'"
  | .and => "'and'"
  | .or => "'or'"
  | .opening => "'('"
  | .closing => "')'"

/-- What is wrong at a place of a marker. -/
inductive MarkerProblem
  | unterminated
  | unsupported (sign : String)
  | stray (c : Char)
  | trailing (t : Token)
  | closingExpected (found : Token)
  | comparatorExpected (found : Token)
  | operandExpected (found : Token)
  | chained
  | unknownVariable (name : String)
  deriving DecidableEq, Repr

/-- The wording of a problem. -/
def MarkerProblem.message : MarkerProblem → String
  | .unterminated => "unterminated string"
  | .unsupported sign => "unsupported operator '" ++ sign ++ "'"
  | .stray c => "unexpected character '" ++ c.toString ++ "'"
  | .trailing t => "unexpected " ++ t.describe
  | .closingExpected t => "expected ')', found " ++ t.describe
  | .comparatorExpected t => "expected comparison operator, found " ++ t.describe
  | .operandExpected t => "expected a variable or string, found " ++ t.describe
  | .chained => "multiple comparison operators are not supported"
  | .unknownVariable name => "unknown marker variable '" ++ name ++ "'"

/-- What a marker that ends too early should go on with. -/
inductive Wanted
  | closing
  | comparator
  | operand
  deriving DecidableEq, Repr

/-- What a refusal calls the missing part. -/
def Wanted.describe : Wanted → String
  | .closing => "')'"
  | .comparator => "a comparison operator"
  | .operand => "a variable or string"

/-- Why a text is no marker, or a marker has no value. -/
inductive MarkerFault
  /-- A problem, and the rest of the text from there on. -/
  | located (problem : MarkerProblem) (rest : String)
  /-- The text ends too early. -/
  | ended (wanted : Wanted)
  /-- Both sides of a comparison are `extra`. -/
  | extraTwice
  /-- `extra` is used where no extras are known. -/
  | extraUnavailable
  /-- `extra` has no order. -/
  | extraOrdered (op : Comparator)
  deriving DecidableEq, Repr

/-- The wording of a fault. -/
def MarkerFault.message : MarkerFault → String
  | .located problem rest => problem.message ++ " at '" ++ rest ++ "'"
  | .ended wanted => "expected " ++ wanted.describe ++ ", found end of marker"
  | .extraTwice => "cannot compare 'extra' with itself"
  | .extraUnavailable => "marker 'extra' is not available in this context"
  | .extraOrdered op => "operator '" ++ op.sign ++ "' is not supported with 'extra'"

/-- A marker that was refused. -/
structure MarkerError where
  marker : String
  fault : MarkerFault
  deriving DecidableEq, Repr

/-- The wording of a refusal. -/
def MarkerError.message (e : MarkerError) : String :=
  "invalid environment marker '" ++ e.marker ++ "': " ++ e.fault.message

namespace Token

/-- A character that may start a word. -/
def startsWord (c : Char) : Bool :=
  c.isAlpha || c == '_'

/-- A character that may continue a word. -/
def continuesWord (c : Char) : Bool :=
  c.isAlphanum || c == '_' || c == '.'

/-- The token of a word.  `not` and `in` are reserved. -/
def ofWord (word : List Char) : Except MarkerProblem Token :=
  if word = "and".toList then .ok .and
  else if word = "or".toList then .ok .or
  else if word = "not".toList ∨ word = "in".toList then .error (.unsupported (String.ofList word))
  else .ok (.word (String.ofList word))

/-- The comparison that a sign stands for, alone or followed by `=`. -/
def ofSign (c : Char) (followed : Bool) : Except MarkerProblem Token :=
  match c, followed with
  | '=', true => .ok (.comparator .equal)
  | '!', true => .ok (.comparator .notEqual)
  | '<', true => .ok (.comparator .atMost)
  | '>', true => .ok (.comparator .atLeast)
  | '<', false => .ok (.comparator .less)
  | '>', false => .ok (.comparator .greater)
  | _, _ => .error (.unsupported c.toString)

/-- The token at the start of a text, none for a blank, and what follows it. -/
def next (c : Char) (cs : List Char) : Except MarkerProblem (Option Token × List Char) :=
  if Text.isBlank c then .ok (none, cs)
  else if c = '(' then .ok (some .opening, cs)
  else if c = ')' then .ok (some .closing, cs)
  else if c = '"' ∨ c = '\'' then
    match Text.cut c cs with
    | some (value, rest) => .ok (some (.text (String.ofList value)), rest)
    | none => .error .unterminated
  else if c = '=' ∨ c = '!' ∨ c = '<' ∨ c = '>' then
    match cs with
    | '=' :: rest => (ofSign c true).map fun t => (some t, rest)
    | _ => (ofSign c false).map fun t => (some t, cs)
  else if startsWord c then
    (ofWord (c :: cs.takeWhile continuesWord)).map fun t =>
      (some t, cs.dropWhile continuesWord)
  else .error (.stray c)

theorem next_length {c : Char} {cs rest : List Char} {t : Option Token}
    (h : next c cs = .ok (t, rest)) : rest.length ≤ cs.length := by
  unfold next at h
  split at h
  · cases h; exact Nat.le_refl _
  split at h
  · cases h; exact Nat.le_refl _
  split at h
  · cases h; exact Nat.le_refl _
  split at h
  · split at h
    · rename_i hc
      cases h
      rw [(Text.cut_eq_some.1 hc).1]
      simp
      omega
    · cases h
  split at h
  · split at h
    · cases hs : ofSign c true with
      | error e => simp [hs, Except.map] at h
      | ok t => simp [hs, Except.map] at h; simp [← h.2]
    · cases hs : ofSign c false with
      | error e => simp [hs, Except.map] at h
      | ok t => simp [hs, Except.map] at h; simp [← h.2]
  split at h
  · cases hs : ofWord (c :: cs.takeWhile continuesWord) with
    | error e => simp [hs, Except.map] at h
    | ok t =>
      simp [hs, Except.map] at h
      rw [← h.2]
      exact (List.dropWhile_sublist _).length_le
  · cases h

/-- The tokens of a text, each with the text from its start on. -/
def scan (cs : List Char) : Except MarkerFault (List (Token × List Char)) :=
  match cs with
  | [] => .ok []
  | c :: cs =>
    match _h : next c cs with
    | .error problem => .error (.located problem (String.ofList (c :: cs)))
    | .ok (none, rest) => scan rest
    | .ok (some t, rest) =>
      match scan rest with
      | .error e => .error e
      | .ok ts => .ok ((t, c :: cs) :: ts)
termination_by cs.length
decreasing_by all_goals exact Nat.lt_succ_of_le (next_length ‹_›)

end Token

end Requisite
