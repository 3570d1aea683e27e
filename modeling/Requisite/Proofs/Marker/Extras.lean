import Requisite.Distribution.Closure

/-!
# Markers and the extras that are asked for

The extras that are asked for are looked at by the comparisons with `extra` alone.  A marker
without such a comparison has one value, whatever the extras are; and one that tests `extra` only
with `==` can only come to hold when more extras are asked for.

* **`Marker.evaluate_grows`** — what all comparisons of a marker keep, the marker keeps;
* **`Declared.applies_of_not_mentionsExtra`**, **`Declared.mayApply_mono`** — the same of
  declarations with their markers.
-/

namespace Requisite

/-! ### Comparisons -/

/-- The comparison is one with `extra`. -/
def Comparison.testsExtra (c : Comparison) : Prop :=
  c.lhs = .extra ∨ c.rhs = .extra

instance (c : Comparison) : Decidable c.testsExtra :=
  inferInstanceAs (Decidable (_ ∨ _))

namespace Marker

mutual

/-- The comparisons of a condition, from left to right. -/
def comparisons : Marker → List Comparison
  | .compare c => [c]
  | .all ms => comparisonsOf ms
  | .any ms => comparisonsOf ms

/-- The comparisons of some conditions, from left to right. -/
def comparisonsOf : List Marker → List Comparison
  | [] => []
  | m :: ms => comparisons m ++ comparisonsOf ms

end

/-- A comparison with `extra` is part of the condition. -/
def MentionsExtra (m : Marker) : Prop :=
  ∃ c ∈ m.comparisons, c.testsExtra

/-- `extra` is tested with `==` only. -/
def EqualsExtra (m : Marker) : Prop :=
  ∀ c ∈ m.comparisons, c.testsExtra → c.op = .equal

instance (m : Marker) : Decidable m.EqualsExtra :=
  inferInstanceAs (Decidable (∀ c ∈ m.comparisons, c.testsExtra → c.op = .equal))

end Marker

/-! ### Values that can only come to hold -/

/-- The second value is the first one, or it holds where the first one does not; a refusal stays
the same. -/
inductive Grows {ε : Type} : Except ε Bool → Except ε Bool → Prop
  | error (e : ε) : Grows (.error e) (.error e)
  | ok {a b : Bool} (h : a = true → b = true) : Grows (.ok a) (.ok b)

namespace Grows

variable {ε : Type} {r r' : Except ε Bool}

theorem refl (r : Except ε Bool) : Grows r r := by
  cases r with
  | error e => exact .error e
  | ok a => exact .ok id

theorem antisymm (h : Grows r r') (h' : Grows r' r) : r = r' := by
  cases h with
  | error e => rfl
  | ok hab =>
    cases h' with
    | ok hba => rw [Bool.eq_iff_iff.2 ⟨hab, hba⟩]

theorem map (h : Grows r r') {f g : Bool → Bool} (hfg : ∀ {a b : Bool},
    (a = true → b = true) → f a = true → g b = true) : Grows (r.map f) (r'.map g) := by
  cases h with
  | error e => exact .error e
  | ok h => exact .ok (hfg h)

theorem mapError {δ : Type} (h : Grows r r') (f : ε → δ) :
    Grows (r.mapError f) (r'.mapError f) := by
  cases h with
  | error e => exact .error (f e)
  | ok h => exact .ok h

end Grows

namespace Marker

variable {env : Environment} {extras extras' : Option Names}

mutual

/-- A condition grows if all of its comparisons do. -/
theorem evaluate_grows : ∀ m : Marker,
    (∀ c ∈ m.comparisons, Grows (c.evaluate env extras) (c.evaluate env extras')) →
      Grows (m.evaluate env extras) (m.evaluate env extras')
  | .compare c, h => by
    rw [evaluate, evaluate]
    exact h c (List.mem_singleton_self c)
  | .all ms, h => by
    rw [evaluate, evaluate]
    exact evaluateAll_grows ms h
  | .any ms, h => by
    rw [evaluate, evaluate]
    exact evaluateAny_grows ms h

theorem evaluateAll_grows : ∀ ms : List Marker,
    (∀ c ∈ comparisonsOf ms, Grows (c.evaluate env extras) (c.evaluate env extras')) →
      Grows (evaluateAll env extras ms) (evaluateAll env extras' ms)
  | [], _ => by
    rw [evaluateAll, evaluateAll]
    exact .refl _
  | m :: ms, h => by
    rw [comparisonsOf] at h
    have hm := evaluate_grows m fun c hc => h c (List.mem_append_left _ hc)
    have hms := evaluateAll_grows ms fun c hc => h c (List.mem_append_right _ hc)
    rw [evaluateAll, evaluateAll]
    generalize m.evaluate env extras = r, m.evaluate env extras' = r' at hm
    cases hm with
    | error e => exact .error e
    | ok hab =>
      refine hms.map fun hcd => ?_
      simp only [Bool.and_eq_true]
      exact fun ⟨ha, hc⟩ => ⟨hab ha, hcd hc⟩

theorem evaluateAny_grows : ∀ ms : List Marker,
    (∀ c ∈ comparisonsOf ms, Grows (c.evaluate env extras) (c.evaluate env extras')) →
      Grows (evaluateAny env extras ms) (evaluateAny env extras' ms)
  | [], _ => by
    rw [evaluateAny, evaluateAny]
    exact .refl _
  | m :: ms, h => by
    rw [comparisonsOf] at h
    have hm := evaluate_grows m fun c hc => h c (List.mem_append_left _ hc)
    have hms := evaluateAny_grows ms fun c hc => h c (List.mem_append_right _ hc)
    rw [evaluateAny, evaluateAny]
    generalize m.evaluate env extras = r, m.evaluate env extras' = r' at hm
    cases hm with
    | error e => exact .error e
    | ok hab =>
      refine hms.map fun hcd => ?_
      simp only [Bool.or_eq_true]
      exact Or.imp hab hcd

end

end Marker

/-- A comparison without `extra` does not look at the extras. -/
theorem Comparison.evaluate_of_not_testsExtra {c : Comparison} (h : ¬c.testsExtra)
    (env : Environment) (extras extras' : Option Names) :
    c.evaluate env extras = c.evaluate env extras' := by
  rw [testsExtra, not_or] at h
  obtain ⟨lhs, op, rhs⟩ := c
  cases lhs <;> cases rhs <;> first | rfl | exact absurd rfl h.1 | exact absurd rfl h.2

/-- A test of `extra` with `==` can only come to hold with more extras. -/
theorem Comparison.evaluate_grows {c : Comparison} (h : c.testsExtra → c.op = .equal)
    (env : Environment) {extras extras' : Names} (hsub : ∀ x ∈ extras, x ∈ extras') :
    Grows (c.evaluate env (some extras)) (c.evaluate env (some extras')) := by
  by_cases hextra : c.testsExtra
  · obtain ⟨lhs, op, rhs⟩ := c
    obtain rfl : op = .equal := h hextra
    have hvalue : Grows (Comparison.value env (some extras) ⟨lhs, .equal, rhs⟩)
        (Comparison.value env (some extras') ⟨lhs, .equal, rhs⟩) := by
      cases lhs <;> cases rhs <;> first | exact .refl _ | exact .ok (hsub _)
    exact hvalue.mapError _
  · rw [evaluate_of_not_testsExtra hextra env (some extras) (some extras')]
    exact .refl _

theorem Marker.evaluate_of_not_mentionsExtra {m : Marker} (h : ¬m.MentionsExtra)
    (env : Environment) (extras extras' : Option Names) :
    m.evaluate env extras = m.evaluate env extras' := by
  have hsame : ∀ c ∈ m.comparisons, c.evaluate env extras = c.evaluate env extras' := fun c hc =>
    Comparison.evaluate_of_not_testsExtra (fun hextra => h ⟨c, hc, hextra⟩) env extras extras'
  refine Grows.antisymm (evaluate_grows m fun c hc => ?_) (evaluate_grows m fun c hc => ?_)
  · rw [hsame c hc]
    exact .refl _
  · rw [hsame c hc]
    exact .refl _

theorem Marker.evaluate_mono {m : Marker} (h : m.EqualsExtra) (env : Environment)
    {extras extras' : Names} (hsub : ∀ x ∈ extras, x ∈ extras') :
    Grows (m.evaluate env (some extras)) (m.evaluate env (some extras')) :=
  evaluate_grows m fun c hc => c.evaluate_grows (h c hc) env hsub

/-! ### Declarations -/

namespace Declared

variable {α : Type} {d : Declared α}

/-- The declaration has a marker that can be read and mentions `extra`. -/
def MentionsExtra (d : Declared α) : Prop :=
  ∃ text m, d.markers = some text ∧ Marker.parse text = .ok m ∧ m.MentionsExtra

/-- The marker of a declaration, if there is one that can be read, tests `extra` with `==` only. -/
def EqualsExtra (d : Declared α) : Prop :=
  ∀ text, d.markers = some text → ∀ m, Marker.parse text = .ok m → m.EqualsExtra

theorem equalsExtra_iff (d : Declared α) : (d.markers.all fun text =>
    (Marker.parse text).toOption.all fun m => decide m.EqualsExtra) = true ↔ d.EqualsExtra := by
  unfold EqualsExtra
  cases d.markers with
  | none => exact iff_of_true rfl fun _ h => nomatch h
  | some text =>
    simp only [Option.all_some, Option.some.injEq, forall_eq']
    cases Marker.parse text with
    | error e => exact iff_of_true rfl fun _ h => nomatch h
    | ok m =>
      simp only [Except.toOption, Option.all_some, decide_eq_true_eq, Except.ok.injEq, forall_eq']

instance (d : Declared α) : Decidable d.EqualsExtra :=
  decidable_of_iff _ d.equalsExtra_iff

/-- A declaration without conditions applies. -/
theorem mayApply_of_unconditional (d : Declared α) (hpython : d.python = none)
    (hmarkers : d.markers = none) (env : Environment) (extras : Names) :
    d.mayApply env extras = true := by
  unfold mayApply applies Environment.admits Environment.satisfies
  rw [hpython, hmarkers]

/-- Without `extra` in its marker a declaration applies, or fails to, whatever is asked for. -/
theorem applies_of_not_mentionsExtra (h : ¬d.MentionsExtra) (env : Environment)
    (extras extras' : Option Names) : d.applies env extras = d.applies env extras' := by
  have hmarkers : env.satisfies d.markers extras = env.satisfies d.markers extras' := by
    unfold Environment.satisfies
    cases hd : d.markers with
    | none => rfl
    | some text =>
      show (env.evaluate text extras).mapError _ = (env.evaluate text extras').mapError _
      unfold Environment.evaluate
      cases hm : Marker.parse text with
      | error e => rfl
      | ok m =>
        have hnot : ¬m.MentionsExtra := fun hm' => h ⟨text, m, hd, hm, hm'⟩
        show (m.evaluate env extras).mapError _ = (m.evaluate env extras').mapError _
        rw [Marker.evaluate_of_not_mentionsExtra hnot env extras extras']
  rw [applies, applies, hmarkers]

theorem satisfies_grows (h : d.EqualsExtra) (env : Environment) {extras extras' : Names}
    (hsub : ∀ x ∈ extras, x ∈ extras') : Grows (env.satisfies d.markers (some extras))
      (env.satisfies d.markers (some extras')) := by
  unfold Environment.satisfies
  cases hd : d.markers with
  | none => exact .refl _
  | some text =>
    show Grows ((env.evaluate text _).mapError _) ((env.evaluate text _).mapError _)
    unfold Environment.evaluate
    cases hm : Marker.parse text with
    | error e => exact .error _
    | ok m => exact (Marker.evaluate_mono (h text hd m hm) env hsub).mapError _

/-- A declaration that tests `extra` with `==` only still applies when more is asked for. -/
theorem mayApply_mono (h : d.EqualsExtra) {env : Environment} {extras extras' : Names}
    (hsub : ∀ x ∈ extras, x ∈ extras') (happly : d.mayApply env extras = true) :
    d.mayApply env extras' = true := by
  have hgrows : Grows (d.applies env (some extras)) (d.applies env (some extras')) := by
    unfold applies
    cases env.admits d.python with
    | error e => exact .error e
    | ok b =>
      cases b with
      | false => exact .refl _
      | true => exact satisfies_grows h env hsub
  unfold mayApply at happly ⊢
  generalize d.applies env (some extras) = r, d.applies env (some extras') = r' at hgrows happly ⊢
  cases hgrows with
  | error e => rfl
  | ok hab => exact hab happly

end Declared

end Requisite
