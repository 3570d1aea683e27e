import Requisite.Proofs.Marker.Extras
import Requisite.Proofs.Outcome

/-!
# What markers evaluate to

All comparisons of a marker are evaluated from left to right, also where the value is decided
already.  So a marker is refused exactly if one of its comparisons is, as the first one of these is,
and else its value is put together from theirs.  A comparison with `extra` is refused without extras
that are known, and if it is refused with some, it is so with any.

* **`Marker.combines_evaluate`** — a marker is evaluated comparison by comparison;
* **`Marker.evaluate_eq_error_iff`**, **`Marker.evaluate_eq_ok_iff`** — what is refused and how, and
  what comes out otherwise;
* **`Comparison.not_testsExtra_of_none`**, **`Comparison.evaluate_eq_error`** — how far a comparison
  looks at the extras;
* **`Marker.evaluate_reports_leftmost`** — the same of whole markers.
-/

namespace Requisite

namespace Marker

mutual

/-- The condition holds where each comparison has the value that `v` says. -/
def holds (v : Comparison → Bool) : Marker → Bool
  | .compare c => v c
  | .all ms => holdsAll v ms
  | .any ms => holdsAny v ms

/-- All conditions hold. -/
def holdsAll (v : Comparison → Bool) : List Marker → Bool
  | [] => true
  | m :: ms => holds v m && holdsAll v ms

/-- Some condition holds. -/
def holdsAny (v : Comparison → Bool) : List Marker → Bool
  | [] => false
  | m :: ms => holds v m || holdsAny v ms

end

/-! ### Comparison by comparison -/

variable {env : Environment} {extras : Option Names} {v : Comparison → Bool}

/-- What comes out is the value, once the comparisons are evaluated from left to right. -/
def Combines (env : Environment) (extras : Option Names) (cs : List Comparison) (value : Bool)
    (r : Except MarkerError Bool) : Prop :=
  r = (cs.mapM (Comparison.evaluate env extras)).map fun _ => value

/-- What two parts come to is put together from what each of them does. -/
theorem Combines.append {cs cs' : List Comparison} {a b : Bool} {r r' : Except MarkerError Bool}
    (f : Bool → Bool → Bool) : Combines env extras cs a r → Combines env extras cs' b r' →
      Combines env extras (cs ++ cs') (f a b)
        (match r with
        | .error e => .error e
        | .ok x => r'.map (f x)) := by
  rintro rfl rfl
  rw [Combines, Outcome.mapM_append]
  cases cs.mapM (Comparison.evaluate env extras) with
  | error e => rfl
  | ok as => cases cs'.mapM (Comparison.evaluate env extras) <;> rfl

mutual

/-- A condition comes to its value where each comparison has the one that it is evaluated to. -/
theorem combines_evaluate : ∀ m : Marker,
    (∀ c ∈ m.comparisons, ∀ b, c.evaluate env extras = .ok b → v c = b) →
      Combines env extras m.comparisons (m.holds v) (m.evaluate env extras)
  | .compare c, h => by
    rw [comparisons] at h
    rw [comparisons, holds, evaluate, Combines, List.mapM_cons]
    cases hc : c.evaluate env extras with
    | error e => rfl
    | ok b =>
      rw [h c (List.mem_singleton_self c) b hc]
      rfl
  | .all ms, h => by
    rw [comparisons] at h
    rw [comparisons, holds, evaluate]
    exact combines_evaluateAll ms h
  | .any ms, h => by
    rw [comparisons] at h
    rw [comparisons, holds, evaluate]
    exact combines_evaluateAny ms h

theorem combines_evaluateAll : ∀ ms : List Marker,
    (∀ c ∈ comparisonsOf ms, ∀ b, c.evaluate env extras = .ok b → v c = b) →
      Combines env extras (comparisonsOf ms) (holdsAll v ms) (evaluateAll env extras ms)
  | [], _ => by
    rw [comparisonsOf, holdsAll, evaluateAll]
    exact rfl
  | m :: ms, h => by
    rw [comparisonsOf] at h
    have hm := combines_evaluate m fun c hc => h c (List.mem_append_left _ hc)
    have hms := combines_evaluateAll ms fun c hc => h c (List.mem_append_right _ hc)
    rw [comparisonsOf, holdsAll, evaluateAll]
    exact .append (· && ·) hm hms

theorem combines_evaluateAny : ∀ ms : List Marker,
    (∀ c ∈ comparisonsOf ms, ∀ b, c.evaluate env extras = .ok b → v c = b) →
      Combines env extras (comparisonsOf ms) (holdsAny v ms) (evaluateAny env extras ms)
  | [], _ => by
    rw [comparisonsOf, holdsAny, evaluateAny]
    exact rfl
  | m :: ms, h => by
    rw [comparisonsOf] at h
    have hm := combines_evaluate m fun c hc => h c (List.mem_append_left _ hc)
    have hms := combines_evaluateAny ms fun c hc => h c (List.mem_append_right _ hc)
    rw [comparisonsOf, holdsAny, evaluateAny]
    exact .append (· || ·) hm hms

end

/-- The value of each comparison; where it is refused, it is of no use. -/
def valuation (env : Environment) (extras : Option Names) (c : Comparison) : Bool :=
  (c.evaluate env extras).toOption.getD false

theorem valuation_eq {c : Comparison} {b : Bool} (h : c.evaluate env extras = .ok b) :
    valuation env extras c = b := by
  rw [valuation, h]
  rfl

variable {m : Marker}

theorem evaluate_eq_error_iff_mapM {e : MarkerError} : m.evaluate env extras = .error e ↔
    m.comparisons.mapM (Comparison.evaluate env extras) = .error e := by
  rw [combines_evaluate m fun c _ b => valuation_eq (c := c), Outcome.map_eq_error_iff]

/-- A marker is refused exactly if one of its comparisons is. -/
theorem exists_evaluate_eq_error_iff : (∃ e, m.evaluate env extras = .error e) ↔
    ∃ c ∈ m.comparisons, ∃ e, c.evaluate env extras = .error e :=
  (exists_congr fun _ => evaluate_eq_error_iff_mapM).trans Outcome.exists_mapM_eq_error_iff

/-- A marker is refused as the leftmost refused comparison is. -/
theorem evaluate_eq_error_iff {e : MarkerError} : m.evaluate env extras = .error e ↔
    ∃ before c after, m.comparisons = before ++ c :: after ∧
      (∀ d ∈ before, ∃ b, d.evaluate env extras = .ok b) ∧ c.evaluate env extras = .error e :=
  evaluate_eq_error_iff_mapM.trans Outcome.mapM_eq_error_iff

/-- What comes out is the value of the condition where its comparisons have theirs. -/
theorem evaluate_eq_ok_iff {b : Bool} : m.evaluate env extras = .ok b ↔
    ∃ v : Comparison → Bool, (∀ c ∈ m.comparisons, c.evaluate env extras = .ok (v c)) ∧
      m.holds v = b := by
  constructor
  · intro h
    rw [combines_evaluate m fun c _ b => valuation_eq (c := c)] at h
    obtain ⟨bs, hbs, hb⟩ := Outcome.of_map h
    refine ⟨valuation env extras, fun c hc => ?_, hb⟩
    obtain ⟨x, hx⟩ := Outcome.of_mapM hbs hc
    rw [hx, valuation_eq hx]
  · rintro ⟨v, hv, rfl⟩
    rw [combines_evaluate m fun c hc b hb => Except.ok.inj ((hv c hc).symm.trans hb)]
    cases hall : m.comparisons.mapM (Comparison.evaluate env extras) with
    | error e =>
      obtain ⟨c, hc, e, he⟩ := Outcome.exists_mapM_eq_error_iff.1 ⟨e, hall⟩
      nomatch (hv c hc).symm.trans he
    | ok bs => rfl

end Marker

/-! ### What the extras decide -/

namespace Comparison

variable {env : Environment} {c : Comparison}

/-- Only a comparison without `extra` has a value where no extras are known. -/
theorem not_testsExtra_of_none {b : Bool} (h : c.evaluate env none = .ok b) : ¬c.testsExtra := by
  obtain ⟨lhs, op, rhs⟩ := c
  rintro (hlhs | hrhs)
  · obtain rfl : lhs = .extra := hlhs
    cases rhs <;> nomatch h
  · obtain rfl : rhs = .extra := hrhs
    cases lhs <;> nomatch h

/-- What is refused with some extras is not refused for which ones they are. -/
theorem evaluateExtra_eq_error {op : Comparator} {value : String} {names : Names}
    {fault : MarkerFault} (h : evaluateExtra op value (some names) = .error fault)
    (names' : Names) : evaluateExtra op value (some names') = .error fault := by
  cases op with
  | equal => nomatch h
  | notEqual => nomatch h
  | _ => exact h

theorem value_eq_error {names : Names} {fault : MarkerFault}
    (h : c.value env (some names) = .error fault) (names' : Names) :
    c.value env (some names') = .error fault := by
  obtain ⟨lhs, op, rhs⟩ := c
  cases lhs <;> cases rhs <;> first | exact h | exact evaluateExtra_eq_error h names'

theorem evaluate_eq_error {names : Names} {e : MarkerError}
    (h : c.evaluate env (some names) = .error e) (names' : Names) :
    c.evaluate env (some names') = .error e := by
  unfold evaluate at h ⊢
  cases hvalue : c.value env (some names) with
  | ok b =>
    rw [hvalue] at h
    nomatch h
  | error fault => rwa [value_eq_error hvalue names', ← hvalue]

/-- A comparison with a value for some extras has one for any. -/
theorem exists_evaluate_eq_ok {names : Names} (h : ∃ b, c.evaluate env (some names) = .ok b)
    (names' : Names) : ∃ b, c.evaluate env (some names') = .ok b := by
  obtain ⟨b, hb⟩ := h
  cases h' : c.evaluate env (some names') with
  | error e => nomatch hb.symm.trans (evaluate_eq_error h' names)
  | ok b' => exact ⟨b', rfl⟩

end Comparison

namespace Marker

variable {env : Environment} {m : Marker}

/-- A value that is found without extras stays the same, whatever they are. -/
theorem evaluate_of_none {b : Bool} (h : m.evaluate env none = .ok b) (extras : Option Names) :
    m.evaluate env extras = .ok b := by
  obtain ⟨v, hv, -⟩ := evaluate_eq_ok_iff.1 h
  have hextra : ¬m.MentionsExtra := fun ⟨c, hc, hextra⟩ =>
    Comparison.not_testsExtra_of_none (hv c hc) hextra
  rwa [evaluate_of_not_mentionsExtra hextra env extras none]

/-- What is refused with some extras is refused in the same way with any. -/
theorem evaluate_eq_error {names : Names} {e : MarkerError}
    (h : m.evaluate env (some names) = .error e) (names' : Names) :
    m.evaluate env (some names') = .error e := by
  obtain ⟨before, c, after, hm, hbefore, hc⟩ := evaluate_eq_error_iff.1 h
  exact evaluate_eq_error_iff.2 ⟨before, c, after, hm,
    fun d hd => Comparison.exists_evaluate_eq_ok (hbefore d hd) names',
    Comparison.evaluate_eq_error hc names'⟩

/-- A marker is refused exactly if one of its comparisons is, in the way that the leftmost of these
is, and else it has the value that they give it.  What it is without extras it is with any, and what
is refused with some extras is refused in the same way with all others. -/
theorem evaluate_reports_leftmost (m : Marker) (env : Environment) :
    (∀ extras, ((∃ e, m.evaluate env extras = .error e) ↔
        ∃ c ∈ m.comparisons, ∃ e, c.evaluate env extras = .error e) ∧
      (∀ e, m.evaluate env extras = .error e ↔
        ∃ before c after, m.comparisons = before ++ c :: after ∧
          (∀ d ∈ before, ∃ b, d.evaluate env extras = .ok b) ∧
            c.evaluate env extras = .error e) ∧
      ∀ b, m.evaluate env extras = .ok b ↔
        ∃ v : Comparison → Bool, (∀ c ∈ m.comparisons, c.evaluate env extras = .ok (v c)) ∧
          m.holds v = b) ∧
    (∀ b, m.evaluate env none = .ok b → ∀ names, m.evaluate env (some names) = .ok b) ∧
    ∀ names e, m.evaluate env (some names) = .error e →
      ∀ names', m.evaluate env (some names') = .error e :=
  ⟨fun _ => ⟨exists_evaluate_eq_error_iff, fun _ => evaluate_eq_error_iff,
      fun _ => evaluate_eq_ok_iff⟩,
    fun _ h names => evaluate_of_none h (some names), fun _ _ h names' => evaluate_eq_error h names'⟩

/-- The first comparison can decide, and the second one is refused nevertheless. -/
def decidedFirst : Marker :=
  .any [.compare ⟨.extra, .equal, .literal "a"⟩, .compare ⟨.extra, .less, .literal "b"⟩]

theorem evaluate_reports_decidedFirst :
    Comparison.evaluate ⟨fun _ => ""⟩ (some {"a"}) ⟨.extra, .equal, .literal "a"⟩ = .ok true ∧
    ∃ e, Comparison.evaluate ⟨fun _ => ""⟩ (some {"a"}) ⟨.extra, .less, .literal "b"⟩ = .error e ∧
      ∀ names, decidedFirst.evaluate ⟨fun _ => ""⟩ (some names) = .error e :=
  ⟨rfl, _, rfl,
    (evaluate_reports_leftmost decidedFirst ⟨fun _ => ""⟩).2.2 ∅ _ rfl⟩

end Marker

end Requisite
