import Requisite.Proofs.Keys
import Requisite.Proofs.Marker.Extras
import Requisite.Proofs.Name

/-!
# What is asked for

What a declared dependency and the requirements of a distribution ask for: names, all of them
canonical, and extras of them.

* **`Closure.declared_eq_some_iff`** — the name and the extras that a dependency asks for;
* **`Closure.mem_targets`** — the names that a distribution leads to, itself never among them;
* **`Requests.mem_foldl_add`** — requests are added up, and none is lost.
-/

namespace Requisite

open Std

/-! ### Requests -/

namespace Requests

theorem mem_add (q : Requests) (name : String) (extras : List String) (n x : String) :
    x ∈ (q.add name extras).getD n ∅ ↔ x ∈ q.getD n ∅ ∨ n = name ∧ x ∈ extras := by
  rw [add, ExtTreeMap.getD_eq_getD_getElem?, ExtTreeMap.getElem?_insert]
  by_cases h : n = name
  · subst h
    rw [if_pos compare_self, Option.getD_some, KeySet.mem_insertMany, eq_self, true_and]
  · rw [if_neg fun e => h (LawfulEqCmp.eq_of_compare e).symm, ExtTreeMap.getD_eq_getD_getElem?,
      or_iff_left fun e => h e.1]

/-- The requests after a list of them was added, whatever says the name and the extras. -/
theorem mem_foldl_add {α : Type} (name : α → String) (extras : α → List String) (l : List α)
    (q : Requests) (n x : String) :
    x ∈ (l.foldl (fun q a => q.add (name a) (extras a)) q).getD n ∅ ↔
      x ∈ q.getD n ∅ ∨ ∃ a ∈ l, name a = n ∧ x ∈ extras a := by
  induction l generalizing q with
  | nil => exact (or_iff_left fun ⟨_, h, _⟩ => List.not_mem_nil h).symm
  | cons a l ih =>
    rw [List.foldl_cons, ih, mem_add, or_assoc, eq_comm]
    simp only [List.mem_cons, or_and_right, exists_or, exists_eq_left]

end Requests

namespace Closure

theorem mem_requestsOf (asked : List (String × List String)) (n x : String) :
    x ∈ (requestsOf asked).getD n ∅ ↔ ∃ extras, (n, extras) ∈ asked ∧ x ∈ extras := by
  have h := Requests.mem_foldl_add Prod.fst Prod.snd asked ∅ n x
  rw [ExtTreeMap.getD_empty, or_iff_right ExtTreeSet.not_mem_empty] at h
  refine h.trans ?_
  constructor
  · intro hasked
    obtain ⟨⟨m, extras⟩, hmem, rfl, hx⟩ := hasked
    exact ⟨extras, hmem, hx⟩
  · intro hasked
    obtain ⟨extras, hmem, hx⟩ := hasked
    exact ⟨(n, extras), hmem, rfl, hx⟩

/-! ### Declared dependencies -/

/-- A dependency that applies, or has conditions without a value, asks for extras of a name. -/
inductive AsksFor (env : Environment) (d : Dependency) : String → List String → Prop
  | one {origin : Origin} (hone : d.subject = .one origin)
      (happly : d.mayApply env (ExtTreeSet.ofList d.extras) = true) :
      AsksFor env d d.canonicalName d.extras
  /-- A choice asks for its first option that applies. -/
  | option {options rest : List Requirement} {r : Requirement} (hchoice : d.subject = .oneOf options)
      (happly : d.mayApply env (ExtTreeSet.ofList d.extras) = true)
      (hoption : Declared.applicable env (some (ExtTreeSet.ofList d.extras)) options =
        .ok (r :: rest)) : AsksFor env d r.canonicalName (d.extras ++ r.extras)
  /-- A choice with an option that has conditions without a value asks for its own name. -/
  | undecided {options : List Requirement} {e : DependencyError} (hchoice : d.subject = .oneOf options)
      (happly : d.mayApply env (ExtTreeSet.ofList d.extras) = true)
      (hoption : Declared.applicable env (some (ExtTreeSet.ofList d.extras)) options = .error e) :
      AsksFor env d d.canonicalName d.extras

theorem declared_eq_some_iff (env : Environment) (d : Dependency) (name : String)
    (extras : List String) :
    declared env d = some (name, extras) ↔ AsksFor env d name extras := by
  constructor
  · intro h
    cases happly : d.mayApply env (ExtTreeSet.ofList d.extras) with
    | false =>
      simp only [declared, happly] at h
      nomatch h
    | true =>
      cases hd : d.subject with
      | one origin =>
        simp only [declared, happly, hd] at h
        obtain ⟨rfl, rfl⟩ := Prod.mk.inj (Option.some.inj h)
        exact .one hd happly
      | oneOf options =>
        cases hoption : Declared.applicable env (some (ExtTreeSet.ofList d.extras)) options with
        | error e =>
          simp only [declared, happly, hd, selectOption, hoption] at h
          obtain ⟨rfl, rfl⟩ := Prod.mk.inj (Option.some.inj h)
          exact .undecided hd happly hoption
        | ok rs =>
          simp only [declared, happly, hd, selectOption, hoption] at h
          cases rs with
          | nil => nomatch h
          | cons r rest =>
            obtain ⟨rfl, rfl⟩ := Prod.mk.inj (Option.some.inj h)
            exact .option hd happly hoption
  · intro h
    cases h with
    | one hone happly =>
      simp only [declared, happly, hone]
      rfl
    | option hchoice happly hoption =>
      simp only [declared, happly, hchoice, selectOption, hoption]
      rfl
    | undecided hchoice happly hoption =>
      simp only [declared, happly, hchoice, selectOption, hoption]
      rfl

theorem mem_declaredAll (env : Environment) (ds : List Dependency) (name : String)
    (extras : List String) :
    (name, extras) ∈ declaredAll env ds ↔ ∃ d ∈ ds, AsksFor env d name extras := by
  simp only [declaredAll, List.mem_filterMap, declared_eq_some_iff]

theorem AsksFor.canonical {env : Environment} {d : Dependency} {name : String}
    {extras : List String} (h : AsksFor env d name extras) : Name.canonical name = name := by
  cases h with
  | one | option | undecided => exact Name.canonical_canonical _

/-! ### Requirements of a distribution -/

/-- The names that a distribution leads to under some extras. -/
def targets (env : Environment) (name : String) (extras : Names) (d : Distribution) : Names :=
  ExtTreeSet.ofList ((demands env name extras d).map Declared.canonicalName)

variable {env : Environment} {name : String} {extras : Names} {d : Distribution}

theorem mem_demands {r : Requirement} : r ∈ demands env name extras d ↔
    ∃ text ∈ d.requiresDist, Requirement.parse text = .ok r ∧ r.mayApply env extras = true ∧
      r.canonicalName ≠ name := by
  rw [demands, List.mem_filterMap]
  refine exists_congr fun text => and_congr_right fun _ => ?_
  unfold demand
  cases hparse : Requirement.parse text with
  | error e => exact iff_of_false (fun h => nomatch h) fun h => nomatch h.1
  | ok s =>
    rw [Except.ok.injEq]
    show (if s.mayApply env extras && s.canonicalName != name then some s else none) = some r ↔ _
    by_cases hs : (s.mayApply env extras && s.canonicalName != name) = true
    · rw [if_pos hs, Option.some.injEq, iff_self_and]
      intro heq
      subst heq
      rw [Bool.and_eq_true, bne_iff_ne] at hs
      exact hs
    · rw [if_neg hs]
      refine iff_of_false (fun h => nomatch h) ?_
      intro hr
      obtain ⟨rfl, happly, hother⟩ := hr
      exact hs (by rw [happly, Bool.true_and, bne_iff_ne]; exact hother)

theorem mem_targets {n : String} : n ∈ targets env name extras d ↔
    ∃ r ∈ demands env name extras d, r.canonicalName = n := by
  rw [targets, KeySet.mem_ofList, List.mem_map]

/-- A distribution does not lead to itself. -/
theorem notMem_targets_self : name ∉ targets env name extras d := by
  intro h
  obtain ⟨r, hr, hname⟩ := mem_targets.1 h
  obtain ⟨-, -, -, -, hne⟩ := mem_demands.1 hr
  exact hne hname

theorem canonical_of_mem_targets {n : String} (h : n ∈ targets env name extras d) :
    Name.canonical n = n := by
  obtain ⟨r, -, rfl⟩ := mem_targets.1 h
  exact Name.canonical_canonical _

end Closure

end Requisite
