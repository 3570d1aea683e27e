import Requisite.Proofs.Marker.Evaluation
import Requisite.Proofs.Marker.Writing
import Requisite.Proofs.Version.Order
import Requisite.Requirement.Selection

/-!
# Complements of markers

There is no `not` in a marker, and none is needed: with `and` and `or` exchanged and every
comparison replaced by the opposite one, a marker says that the first one does not hold.  Versions
and texts are totally ordered, so that of two opposite comparisons exactly one holds; and both look
at their operands as versions, or both as texts.

* `Marker.dual`, `Marker.mirrored` — the marker that says the contrary, and the one that says the
  same with the sides of its comparisons exchanged;
* **`Comparison.evaluate_opposite`**, **`Comparison.evaluate_mirrored`** — the same of comparisons;
* **`Marker.toOption_evaluate_dual`**, **`Marker.toOption_evaluate_mirrored`** — of whole markers;
* **`Marker.evaluate_toString_dual`** — the dual of a marker that was read can be written;
* **`Marker.dual_complements`** — of two options under a marker and its dual one applies.
-/

namespace Requisite

/-! ### Orders read backwards -/

namespace Comparator

/-- The comparison that holds where the given one does not. -/
def opposite : Comparator → Comparator
  | .equal => .notEqual
  | .notEqual => .equal
  | .less => .atLeast
  | .atLeast => .less
  | .atMost => .greater
  | .greater => .atMost

/-- The comparison that says the same of two values in the other order. -/
def mirrored : Comparator → Comparator
  | .equal => .equal
  | .notEqual => .notEqual
  | .less => .greater
  | .greater => .less
  | .atMost => .atLeast
  | .atLeast => .atMost

theorem holds_opposite (op : Comparator) (o : Ordering) :
    op.opposite.holds o = !op.holds o := by
  cases op <;> cases o <;> rfl

theorem holds_mirrored (op : Comparator) (o : Ordering) :
    op.mirrored.holds o.swap = op.holds o := by
  cases op <;> cases o <;> rfl

end Comparator

/-- Two texts that are compared the other way round come out the other way round, as versions or as
texts. -/
theorem swap_orderOf (a b : String) : (orderOf a b).swap = orderOf b a := by
  have htext : (compare a b).swap = compare b a := Std.OrientedCmp.eq_swap.symm
  unfold orderOf
  cases Version.parse a with
  | error e => cases Version.parse b <;> exact htext
  | ok v =>
    cases Version.parse b with
    | error e => exact htext
    | ok u => exact v.swap_compare u

/-! ### Comparisons -/

namespace Comparison

variable {env : Environment} {extras : Option Names}

/-- The comparison of the same operands that says the contrary. -/
def opposite (c : Comparison) : Comparison :=
  { c with op := c.op.opposite }

/-- The comparison that says the same with its sides exchanged. -/
def mirrored (c : Comparison) : Comparison :=
  ⟨c.rhs, c.op.mirrored, c.lhs⟩

theorem toOption_evaluate (c : Comparison) :
    (c.evaluate env extras).toOption = (c.value env extras).toOption := by
  unfold evaluate
  cases c.value env extras <;> rfl

/-- `extra` can be tested with an operator if it can be with the opposite one. -/
theorem evaluateExtra_opposite (op : Comparator) (value : String) :
    (evaluateExtra op.opposite value extras).toOption =
      (evaluateExtra op value extras).toOption.map not := by
  cases extras with
  | none => rfl
  | some names =>
    cases op with
    | notEqual =>
      show some (names.contains value) = some (!!names.contains value)
      rw [Bool.not_not]
    | _ => rfl

theorem evaluateExtra_mirrored (op : Comparator) (value : String) :
    (evaluateExtra op.mirrored value extras).toOption =
      (evaluateExtra op value extras).toOption := by
  cases extras with
  | none => rfl
  | some names => cases op <;> rfl

/-- A comparison with the opposite operator has the opposite value, or none if it has none. -/
theorem evaluate_opposite (c : Comparison) : (c.opposite.evaluate env extras).toOption =
    (c.evaluate env extras).toOption.map not := by
  rw [toOption_evaluate, toOption_evaluate]
  obtain ⟨lhs, op, rhs⟩ := c
  have horder : ∀ a b : String, some (op.opposite.holds (orderOf a b)) =
      (some (op.holds (orderOf a b))).map not := by
    intro a b
    rw [op.holds_opposite, Option.map_some]
  cases lhs <;> cases rhs <;>
    first | rfl | exact evaluateExtra_opposite op _ | exact horder _ _

/-- A comparison read from right to left has the same value, or none if it has none. -/
theorem evaluate_mirrored (c : Comparison) : (c.mirrored.evaluate env extras).toOption =
    (c.evaluate env extras).toOption := by
  rw [toOption_evaluate, toOption_evaluate]
  obtain ⟨lhs, op, rhs⟩ := c
  have horder : ∀ a b : String, some (op.mirrored.holds (orderOf b a)) =
      some (op.holds (orderOf a b)) := by
    intro a b
    rw [← swap_orderOf a b, op.holds_mirrored]
  cases lhs <;> cases rhs <;>
    first | rfl | exact evaluateExtra_mirrored op _ | exact horder _ _

end Comparison

/-! ### Conditions -/

namespace Marker

mutual

/-- The condition that says the contrary: `and` and `or` are exchanged, and each comparison is
replaced by the opposite one. -/
def dual : Marker → Marker
  | .compare c => .compare c.opposite
  | .all ms => .any (duals ms)
  | .any ms => .all (duals ms)

/-- The conditions that say the contrary, one for each. -/
def duals : List Marker → List Marker
  | [] => []
  | m :: ms => m.dual :: duals ms

end

mutual

/-- The condition that says the same, with the sides of each comparison exchanged. -/
def mirrored : Marker → Marker
  | .compare c => .compare c.mirrored
  | .all ms => .all (allMirrored ms)
  | .any ms => .any (allMirrored ms)

/-- The conditions that say the same, with the sides of each comparison exchanged. -/
def allMirrored : List Marker → List Marker
  | [] => []
  | m :: ms => m.mirrored :: allMirrored ms

end

variable {env : Environment} {extras : Option Names}

/-- A conjunction has a value if all its parts have. -/
theorem toOption_evaluateAll_cons (m : Marker) (ms : List Marker) :
    (evaluateAll env extras (m :: ms)).toOption =
      Option.map₂ (· && ·) (m.evaluate env extras).toOption
        (evaluateAll env extras ms).toOption := by
  rw [evaluateAll]
  cases m.evaluate env extras with
  | error e => rfl
  | ok a => cases evaluateAll env extras ms <;> rfl

/-- An alternative has a value if all its parts have. -/
theorem toOption_evaluateAny_cons (m : Marker) (ms : List Marker) :
    (evaluateAny env extras (m :: ms)).toOption =
      Option.map₂ (· || ·) (m.evaluate env extras).toOption
        (evaluateAny env extras ms).toOption := by
  rw [evaluateAny]
  cases m.evaluate env extras with
  | error e => rfl
  | ok a => cases evaluateAny env extras ms <;> rfl

mutual

/-- The dual of a condition has the opposite value, or none if the condition has none. -/
theorem toOption_evaluate_dual : ∀ m : Marker,
    (m.dual.evaluate env extras).toOption = (m.evaluate env extras).toOption.map not
  | .compare c => by
    rw [dual, evaluate, evaluate]
    exact c.evaluate_opposite
  | .all ms => by
    rw [dual, evaluate, evaluate]
    exact toOption_evaluateAny_duals ms
  | .any ms => by
    rw [dual, evaluate, evaluate]
    exact toOption_evaluateAll_duals ms

theorem toOption_evaluateAny_duals : ∀ ms : List Marker,
    (evaluateAny env extras (duals ms)).toOption = (evaluateAll env extras ms).toOption.map not
  | [] => by
    rw [duals, evaluateAny, evaluateAll]
    rfl
  | m :: ms => by
    rw [duals, toOption_evaluateAny_cons, toOption_evaluateAll_cons, toOption_evaluate_dual m,
      toOption_evaluateAny_duals ms, Option.map_map₂_distrib Bool.not_and]

theorem toOption_evaluateAll_duals : ∀ ms : List Marker,
    (evaluateAll env extras (duals ms)).toOption = (evaluateAny env extras ms).toOption.map not
  | [] => by
    rw [duals, evaluateAny, evaluateAll]
    rfl
  | m :: ms => by
    rw [duals, toOption_evaluateAll_cons, toOption_evaluateAny_cons, toOption_evaluate_dual m,
      toOption_evaluateAll_duals ms, Option.map_map₂_distrib Bool.not_or]

end

mutual

/-- A condition has the same value when its comparisons are read from right to left. -/
theorem toOption_evaluate_mirrored : ∀ m : Marker,
    (m.mirrored.evaluate env extras).toOption = (m.evaluate env extras).toOption
  | .compare c => by
    rw [mirrored, evaluate, evaluate]
    exact c.evaluate_mirrored
  | .all ms => by
    rw [mirrored, evaluate, evaluate]
    exact toOption_evaluateAll_mirrored ms
  | .any ms => by
    rw [mirrored, evaluate, evaluate]
    exact toOption_evaluateAny_mirrored ms

theorem toOption_evaluateAll_mirrored : ∀ ms : List Marker,
    (evaluateAll env extras (allMirrored ms)).toOption = (evaluateAll env extras ms).toOption
  | [] => by rw [allMirrored]
  | m :: ms => by
    rw [allMirrored, toOption_evaluateAll_cons, toOption_evaluateAll_cons,
      toOption_evaluate_mirrored m, toOption_evaluateAll_mirrored ms]

theorem toOption_evaluateAny_mirrored : ∀ ms : List Marker,
    (evaluateAny env extras (allMirrored ms)).toOption = (evaluateAny env extras ms).toOption
  | [] => by rw [allMirrored]
  | m :: ms => by
    rw [allMirrored, toOption_evaluateAny_cons, toOption_evaluateAny_cons,
      toOption_evaluate_mirrored m, toOption_evaluateAny_mirrored ms]

end

/-! ### Written duals -/

mutual

theorem comparisons_dual : ∀ m : Marker,
    m.dual.comparisons = m.comparisons.map Comparison.opposite
  | .compare c => by
    rw [dual, comparisons, comparisons, List.map_singleton]
  | .all ms => by
    rw [dual, comparisons, comparisons]
    exact comparisonsOf_duals ms
  | .any ms => by
    rw [dual, comparisons, comparisons]
    exact comparisonsOf_duals ms

theorem comparisonsOf_duals : ∀ ms : List Marker,
    comparisonsOf (duals ms) = (comparisonsOf ms).map Comparison.opposite
  | [] => by
    rw [duals, comparisonsOf, List.map_nil]
  | m :: ms => by
    rw [duals, comparisonsOf, comparisonsOf, List.map_append, comparisons_dual m,
      comparisonsOf_duals ms]

end

theorem duals_eq_map (ms : List Marker) : duals ms = ms.map dual := by
  induction ms with
  | nil => rw [duals, List.map_nil]
  | cons m ms ih => rw [duals, ih, List.map_cons]

mutual

theorem Branching.dual : ∀ {m : Marker}, m.Branching → m.dual.Branching
  | .compare _, _ => by
    rw [Marker.dual]
    trivial
  | .all ms, h => by
    rw [Marker.dual, Branching, duals_eq_map, List.length_map]
    exact ⟨h.1, duals_eq_map ms ▸ BranchingAll.duals h.2⟩
  | .any ms, h => by
    rw [Marker.dual, Branching, duals_eq_map, List.length_map]
    exact ⟨h.1, duals_eq_map ms ▸ BranchingAll.duals h.2⟩

theorem BranchingAll.duals : ∀ {ms : List Marker}, BranchingAll ms → BranchingAll (duals ms)
  | [], _ => by
    rw [Marker.duals]
    trivial
  | _ :: _, h => by
    rw [Marker.duals]
    exact ⟨h.1.dual, BranchingAll.duals h.2⟩

end

/-- The dual of a condition that was read can be written and read again, and comes to what it
did. -/
theorem evaluate_toString_dual {text : String} {m : Marker} (h : parse text = .ok m)
    (env : Environment) (extras : Option Names) :
    env.evaluate (toString m.dual) extras = m.dual.evaluate env extras := by
  have hquote : m.dual.Quotable := by
    intro c hc
    rw [comparisons_dual] at hc
    obtain ⟨c', hc', rfl⟩ := List.mem_map.1 hc
    exact quotable_of_parse h c' hc'
  have hread := parse_toString (branching_of_parse h).dual hquote
  unfold Environment.evaluate
  rw [hread]
  exact evaluate_spliced env extras m.dual

/-! ### Exactly one of two -/

/-- A condition has a value exactly where its dual has one, and that is the opposite one; with the
sides of its comparisons exchanged it has the same value, or none again.  So of two options whose
guards are a condition and its dual, exactly one applies wherever the condition has a value, and
that one is selected, whichever stands first. -/
theorem dual_complements (env : Environment) (extras : Option Names) :
    (∀ m : Marker,
      (∀ b, m.dual.evaluate env extras = .ok b ↔ m.evaluate env extras = .ok (!b)) ∧
        ((∃ e, m.dual.evaluate env extras = .error e) ↔
          ∃ e, m.evaluate env extras = .error e)) ∧
    (∀ m : Marker,
      (∀ b, m.mirrored.evaluate env extras = .ok b ↔ m.evaluate env extras = .ok b) ∧
        ((∃ e, m.mirrored.evaluate env extras = .error e) ↔
          ∃ e, m.evaluate env extras = .error e)) ∧
    ∀ (text : String) (m : Marker) (b : Bool), parse text = .ok m →
      m.evaluate env extras = .ok b → ∀ r r' : Requirement,
        env.admits r.python = .ok true → env.admits r'.python = .ok true →
          r.markers = some text → r'.markers = some (toString m.dual) →
            r.applies env extras = .ok b ∧ r'.applies env extras = .ok (!b) ∧
              selectOption [r, r'] env extras = .ok (some (if b then r else r')) ∧
                selectOption [r', r] env extras = .ok (some (if b then r else r')) := by
  have hdual : ∀ m : Marker,
      (∀ b, m.dual.evaluate env extras = .ok b ↔ m.evaluate env extras = .ok (!b)) ∧
        ((∃ e, m.dual.evaluate env extras = .error e) ↔ ∃ e, m.evaluate env extras = .error e) :=
    fun m => Outcome.iff_of_toOption Bool.not_not (toOption_evaluate_dual m)
  refine ⟨hdual, fun m => ?_, ?_⟩
  · refine Outcome.iff_of_toOption (f := id) (fun b => rfl) ?_
    rw [toOption_evaluate_mirrored, Option.map_id, id]
  · intro text m b hparse hb r r' hpython hpython' hmarkers hmarkers'
    have hread : env.evaluate text extras = .ok b := by
      rw [Environment.evaluate, hparse]
      exact hb
    have hcontrary : env.evaluate (toString m.dual) extras = .ok (!b) := by
      rw [evaluate_toString_dual hparse, (hdual m).1, Bool.not_not]
      exact hb
    have hr : r.applies env extras = .ok b := by
      rw [Declared.applies, hpython, hmarkers]
      exact congrArg (Except.mapError _) hread
    have hr' : r'.applies env extras = .ok (!b) := by
      rw [Declared.applies, hpython', hmarkers']
      exact congrArg (Except.mapError _) hcontrary
    refine ⟨hr, hr', ?_, ?_⟩
    · rw [selectOption, Declared.applicable, hr, Declared.applicable, hr']
      cases b <;> rfl
    · rw [selectOption, Declared.applicable, hr', Declared.applicable, hr]
      cases b <;> rfl

/-- A guard with all kinds of comparisons, one of them with `extra` and one with its sides
exchanged. -/
def guardText : String :=
  "(extra == 'docs' or '3.9' <= python_version) and os_name != \"nt\""

/-- What `guardText` is read as. -/
def guardMarker : Marker :=
  .all [
    .any [
      .compare ⟨.extra, .equal, .literal "docs"⟩,
      .compare ⟨.literal "3.9", .atMost, .variable .pythonVersion⟩],
    .compare ⟨.variable .osName, .notEqual, .literal "nt"⟩]

/-- In an environment with version 3.10 everywhere the guard holds without extras: 3.9 is the lower
version, though its text is the greater one.  The second option stands first and is not selected. -/
theorem dual_complements_guard :
    let env : Environment := ⟨fun _ => "3.10"⟩
    let r : Requirement := { Requirement.ofName "new" with markers := some guardText }
    let r' : Requirement :=
      { Requirement.ofName "old" with markers := some (toString guardMarker.dual) }
    toString guardMarker.dual =
        "extra != \"docs\" and \"3.9\" > python_version or os_name == \"nt\"" ∧
      parse guardText = .ok guardMarker ∧ guardMarker.evaluate env (some ∅) = .ok true ∧
        r.applies env (some ∅) = .ok true ∧ r'.applies env (some ∅) = .ok false ∧
          selectOption [r', r] env (some ∅) = .ok (some r) := by
  intro env r r'
  have hparse : parse guardText = .ok guardMarker := by cbv
  have hvalue : guardMarker.evaluate env (some ∅) = .ok true := by cbv
  obtain ⟨hr, hr', -, hselect⟩ := (dual_complements env (some ∅)).2.2 guardText guardMarker true
    hparse hvalue r r' rfl rfl rfl rfl
  exact ⟨by cbv, hparse, hvalue, hr, hr', hselect⟩

end Marker

end Requisite
