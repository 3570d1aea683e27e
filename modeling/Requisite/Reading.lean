/-!
# Readings

Whoever reads a list takes items from its start and goes on with what is left.

* `Reading` — what was read at the start of a list, and what comes after it.  A reading always
  takes something, so that whatever reads on ends;
* `Remainder` — what is left of a list after a part that may be empty was skipped.
-/

namespace Requisite

/-- What was read at the start of a list, and the items after it: fewer than there were. -/
structure Reading {τ : Type} (α : Type) (xs : List τ) where
  value : α
  rest : List τ
  shorter : rest.length < xs.length

/-- What is left of a list after items at its start were skipped: not more than there were. -/
structure Remainder {τ : Type} (xs : List τ) where
  rest : List τ
  notLonger : rest.length ≤ xs.length

namespace Remainder

variable {τ : Type} {xs : List τ}

/-- All of a list, of which nothing was skipped. -/
def whole (xs : List τ) : Remainder xs :=
  ⟨xs, Nat.le_refl _⟩

/-- A list without the items of a class at its start. -/
def dropping (p : τ → Bool) (xs : List τ) : Remainder xs :=
  ⟨xs.dropWhile p, (List.dropWhile_sublist p).length_le⟩

/-- What is left after one more item was skipped first. -/
def cons (x : τ) (k : Remainder xs) : Remainder (x :: xs) :=
  ⟨k.rest, Nat.le_succ_of_le k.notLonger⟩

/-- What is left after more was skipped. -/
def trans (k : Remainder xs) (l : Remainder k.rest) : Remainder xs :=
  ⟨l.rest, Nat.le_trans l.notLonger k.notLonger⟩

end Remainder

namespace Reading

variable {τ α β γ : Type} {xs : List τ}

/-- The reading of the first item. -/
def first (value : α) (x : τ) (xs : List τ) : Reading α (x :: xs) :=
  ⟨value, xs, Nat.lt_succ_self _⟩

/-- The reading of the first item if it is `x`. -/
def item? [DecidableEq τ] (x : τ) : (xs : List τ) → Option (Reading Unit xs)
  | [] => none
  | y :: ys => if y = x then some (first () y ys) else none

/-- The first item and the items of a class that follow it. -/
def run (p : τ → Bool) (x : τ) (xs : List τ) : Reading (List τ) (x :: xs) :=
  ⟨x :: xs.takeWhile p, xs.dropWhile p,
    Nat.lt_succ_of_le (List.dropWhile_sublist p).length_le⟩

/-- The reading of another value. -/
def map (r : Reading α xs) (f : α → β) : Reading β xs :=
  ⟨f r.value, r.rest, r.shorter⟩

/-- The reading that took one more item before. -/
def cons (x : τ) (r : Reading α xs) : Reading α (x :: xs) :=
  ⟨r.value, r.rest, Nat.lt_succ_of_lt r.shorter⟩

/-- The reading that took `lead` before. -/
def behind (lead : List τ) (r : Reading α xs) : Reading α (lead ++ xs) :=
  ⟨r.value, r.rest, by
    rw [List.length_append]
    exact Nat.lt_of_lt_of_le r.shorter (Nat.le_add_left _ _)⟩

/-- What is left after a reading. -/
def left (r : Reading α xs) : Remainder xs :=
  ⟨r.rest, Nat.le_of_lt r.shorter⟩

/-- Two readings, one after the other. -/
def append (r : Reading α xs) (s : Reading β r.rest) (f : α → β → γ) : Reading γ xs :=
  ⟨f r.value s.value, s.rest, Nat.lt_trans s.shorter r.shorter⟩

/-- The value of a reading after another one, whose value is dropped. -/
def next (r : Reading α xs) (s : Reading β r.rest) : Reading β xs :=
  r.append s fun _ b => b

/-- The reading of a value and of what closes it. -/
def closed (r : Reading α xs) (s : Reading β r.rest) : Reading α xs :=
  r.append s fun a _ => a

/-- The reading that skipped something afterwards. -/
def skipping (r : Reading α xs) (k : Remainder r.rest) : Reading α xs :=
  ⟨r.value, k.rest, Nat.lt_of_le_of_lt k.notLonger r.shorter⟩

end Reading

/-- The reading after something was skipped. -/
def Remainder.reading {τ α : Type} {xs : List τ} (k : Remainder xs) (r : Reading α k.rest) :
    Reading α xs :=
  ⟨r.value, r.rest, Nat.lt_of_lt_of_le r.shorter k.notLonger⟩

end Requisite
