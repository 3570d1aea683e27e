import Requisite.Marker.Evaluation
import Requisite.Proofs.Marker.Grammar

/-!
# Splicing conditions

A conjunction directly within a conjunction says no more than its parts do in its place, and so does
an alternative within an alternative.  Splicing puts the parts there.  It changes neither how the
condition is written nor what it evaluates to, refusals included.

* `Marker.spliced` — the condition in which nothing is nested in vain;
* **`Marker.chars_spliced`** — it is written alike;
* **`Marker.evaluate_spliced`** — it evaluates alike.
-/

namespace Requisite.Marker

mutual

/-- The condition with every conjunction directly within a conjunction, and every alternative
directly within an alternative, replaced by its parts. -/
def spliced : Marker → Marker
  | .compare c => .compare c
  | .all ms => .all (conjuncts ms)
  | .any ms => .any (alternatives ms)

/-- The parts of a conjunction, those of a conjunction among them in its place. -/
def conjuncts : List Marker → List Marker
  | [] => []
  | .all ns :: ms => conjuncts ns ++ conjuncts ms
  | .compare c :: ms => .compare c :: conjuncts ms
  | .any ns :: ms => .any (alternatives ns) :: conjuncts ms

/-- The parts of an alternative, those of an alternative among them in its place. -/
def alternatives : List Marker → List Marker
  | [] => []
  | .any ns :: ms => alternatives ns ++ alternatives ms
  | .compare c :: ms => .compare c :: alternatives ms
  | .all ns :: ms => .all (conjuncts ns) :: alternatives ms

end

/-! ### Evaluation -/

section Evaluation

variable (env : Environment) (extras : Option Names)

theorem evaluateAll_append (ms ns : List Marker) :
    evaluateAll env extras (ms ++ ns) = match evaluateAll env extras ms with
      | .error e => .error e
      | .ok b => (evaluateAll env extras ns).map (b && ·) := by
  induction ms with
  | nil =>
    rw [List.nil_append, evaluateAll]
    show _ = (evaluateAll env extras ns).map _
    cases evaluateAll env extras ns <;> rfl
  | cons m ms ih =>
    rw [List.cons_append, evaluateAll, evaluateAll, ih]
    cases m.evaluate env extras with
    | error e => rfl
    | ok b =>
      cases evaluateAll env extras ms with
      | error e => rfl
      | ok b' =>
        show ((evaluateAll env extras ns).map _).map _ = (evaluateAll env extras ns).map _
        cases evaluateAll env extras ns with
        | error e => rfl
        | ok b'' => exact congrArg Except.ok (Bool.and_assoc b b' b'').symm

theorem evaluateAny_append (ms ns : List Marker) :
    evaluateAny env extras (ms ++ ns) = match evaluateAny env extras ms with
      | .error e => .error e
      | .ok b => (evaluateAny env extras ns).map (b || ·) := by
  induction ms with
  | nil =>
    rw [List.nil_append, evaluateAny]
    show _ = (evaluateAny env extras ns).map _
    cases evaluateAny env extras ns <;> rfl
  | cons m ms ih =>
    rw [List.cons_append, evaluateAny, evaluateAny, ih]
    cases m.evaluate env extras with
    | error e => rfl
    | ok b =>
      cases evaluateAny env extras ms with
      | error e => rfl
      | ok b' =>
        show ((evaluateAny env extras ns).map _).map _ = (evaluateAny env extras ns).map _
        cases evaluateAny env extras ns with
        | error e => rfl
        | ok b'' => exact congrArg Except.ok (Bool.or_assoc b b' b'').symm

mutual

/-- A spliced condition evaluates as before. -/
theorem evaluate_spliced : ∀ m : Marker, m.spliced.evaluate env extras = m.evaluate env extras
  | .compare c => rfl
  | .all ms => by rw [spliced, evaluate, evaluate, evaluateAll_conjuncts ms]
  | .any ms => by rw [spliced, evaluate, evaluate, evaluateAny_alternatives ms]

theorem evaluateAll_conjuncts : ∀ ms : List Marker,
    evaluateAll env extras (conjuncts ms) = evaluateAll env extras ms
  | [] => by rw [conjuncts]
  | .all ns :: ms => by
    rw [conjuncts, evaluateAll_append, evaluateAll_conjuncts ns, evaluateAll_conjuncts ms]
    rfl
  | .compare c :: ms => by rw [conjuncts, evaluateAll, evaluateAll, evaluateAll_conjuncts ms]
  | .any ns :: ms => by
    rw [conjuncts, evaluateAll, evaluateAll, evaluate, evaluate, evaluateAny_alternatives ns,
      evaluateAll_conjuncts ms]

theorem evaluateAny_alternatives : ∀ ms : List Marker,
    evaluateAny env extras (alternatives ms) = evaluateAny env extras ms
  | [] => by rw [alternatives]
  | .any ns :: ms => by
    rw [alternatives, evaluateAny_append, evaluateAny_alternatives ns, evaluateAny_alternatives ms]
    rfl
  | .compare c :: ms => by
    rw [alternatives, evaluateAny, evaluateAny, evaluateAny_alternatives ms]
  | .all ns :: ms => by
    rw [alternatives, evaluateAny, evaluateAny, evaluate, evaluate, evaluateAll_conjuncts ns,
      evaluateAny_alternatives ms]

end

end Evaluation

/-! ### How a condition is written -/

theorem charsAnd_append (ms ns : List Marker) : charsAnd (ms ++ ns) = charsAnd ms ++ charsAnd ns := by
  induction ms with
  | nil => rw [List.nil_append, charsAnd, List.nil_append]
  | cons m ms ih => simp only [List.cons_append, charsAnd, ih, List.append_assoc]

theorem charsOr_append (ms ns : List Marker) : charsOr (ms ++ ns) = charsOr ms ++ charsOr ns := by
  induction ms with
  | nil => rw [List.nil_append, charsOr, List.nil_append]
  | cons m ms ih => simp only [List.cons_append, charsOr, ih, List.append_assoc]

/-- A conjunction is written as its parts are after another one, less the first `and`. -/
theorem charsAnd_eq {ms : List Marker} (h : ms ≠ []) :
    charsAnd ms = " and ".toList ++ (all ms).chars := by
  cases ms with
  | nil => exact absurd rfl h
  | cons m ms => rw [charsAnd, chars, List.append_assoc]

/-- An alternative is written as its parts are after another one, less the first `or`. -/
theorem charsOr_eq {ms : List Marker} (h : ms ≠ []) :
    charsOr ms = " or ".toList ++ (any ms).chars := by
  cases ms with
  | nil => exact absurd rfl h
  | cons m ms => rw [charsOr, chars, List.append_assoc]

theorem ne_nil_of_two_le {ms : List Marker} (h : 2 ≤ ms.length) : ms ≠ [] := by
  rintro rfl
  nomatch h

theorem length_conjuncts : ∀ {ms : List Marker}, BranchingAll ms → ms.length ≤ (conjuncts ms).length
  | [], _ => Nat.zero_le _
  | .all ns :: ms, h => by
    have hns := length_conjuncts h.1.2
    have hms := length_conjuncts h.2
    have htwo := h.1.1
    rw [conjuncts, List.length_append, List.length_cons]
    omega
  | .compare c :: ms, h => by
    rw [conjuncts]
    exact Nat.succ_le_succ (length_conjuncts h.2)
  | .any ns :: ms, h => by
    rw [conjuncts]
    exact Nat.succ_le_succ (length_conjuncts h.2)

theorem length_alternatives : ∀ {ms : List Marker},
    BranchingAll ms → ms.length ≤ (alternatives ms).length
  | [], _ => Nat.zero_le _
  | .any ns :: ms, h => by
    have hns := length_alternatives h.1.2
    have hms := length_alternatives h.2
    have htwo := h.1.1
    rw [alternatives, List.length_append, List.length_cons]
    omega
  | .compare c :: ms, h => by
    rw [alternatives]
    exact Nat.succ_le_succ (length_alternatives h.2)
  | .all ns :: ms, h => by
    rw [alternatives]
    exact Nat.succ_le_succ (length_alternatives h.2)

mutual

/-- A spliced condition is written as before. -/
theorem chars_spliced : ∀ {m : Marker}, m.Branching → m.spliced.chars = m.chars
  | .compare c, _ => rfl
  | .all ms, h => by
    have hlength := length_conjuncts h.2
    have hms := charsAnd_conjuncts h.2
    rw [charsAnd_eq (ne_nil_of_two_le (Nat.le_trans h.1 hlength)),
      charsAnd_eq (ne_nil_of_two_le h.1)] at hms
    rw [spliced]
    exact List.append_cancel_left hms
  | .any ms, h => by
    have hlength := length_alternatives h.2
    have hms := charsOr_alternatives h.2
    rw [charsOr_eq (ne_nil_of_two_le (Nat.le_trans h.1 hlength)),
      charsOr_eq (ne_nil_of_two_le h.1)] at hms
    rw [spliced]
    exact List.append_cancel_left hms

theorem charsAnd_conjuncts : ∀ {ms : List Marker}, BranchingAll ms →
    charsAnd (conjuncts ms) = charsAnd ms
  | [], _ => by rw [conjuncts]
  | .all ns :: ms, h => by
    rw [conjuncts, charsAnd_append, charsAnd_conjuncts h.1.2, charsAnd_conjuncts h.2,
      charsAnd_eq (ne_nil_of_two_le h.1.1), charsAnd]
    rfl
  | .compare c :: ms, h => by rw [conjuncts, charsAnd, charsAnd, charsAnd_conjuncts h.2]
  | .any ns :: ms, h => by
    have hns := chars_spliced h.1
    rw [spliced] at hns
    rw [conjuncts, charsAnd, charsAnd, charsAnd_conjuncts h.2, hns]
    rfl

theorem charsOr_alternatives : ∀ {ms : List Marker}, BranchingAll ms →
    charsOr (alternatives ms) = charsOr ms
  | [], _ => by rw [alternatives]
  | .any ns :: ms, h => by
    rw [alternatives, charsOr_append, charsOr_alternatives h.1.2, charsOr_alternatives h.2,
      charsOr_eq (ne_nil_of_two_le h.1.1), charsOr]
  | .compare c :: ms, h => by rw [alternatives, charsOr, charsOr, charsOr_alternatives h.2]
  | .all ns :: ms, h => by
    have hns := chars_spliced h.1
    rw [spliced] at hns
    rw [alternatives, charsOr, charsOr, charsOr_alternatives h.2, hns]

end

end Requisite.Marker
