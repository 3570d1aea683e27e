import Requisite.Proofs.Distribution.Closure

/-!
# How declarations are written down

The graph behind declared dependencies is built from the names and the extras that they ask for, all
of them taken together.  Neither the order of the declarations counts, nor one that is repeated, nor
the spelling of a name.

* **`Restates`** — a list of declarations written down in another way;
* **`Source.closure_congr`** — only what is asked for counts;
* **`Source.closure_restated`** — restated declarations lead to the same graph, or to the same
  failure, with the same questions and the same findings.
-/

open Relation

namespace Requisite

open Std

/-! ### What is asked for -/

namespace Requests

theorem mem_add_iff {q : Requests} {name : String} {extras : List String} {n : String} :
    n ∈ q.add name extras ↔ n = name ∨ n ∈ q :=
  KeyMap.mem_insert_iff

/-- Requests are the same if they are on the same names and for the same extras of them. -/
theorem ext {q q' : Requests} (hmem : ∀ n, n ∈ q ↔ n ∈ q')
    (hextras : ∀ n x, x ∈ q.getD n ∅ ↔ x ∈ q'.getD n ∅) : q = q' := by
  apply ExtTreeMap.ext_getElem?
  intro n
  have hgetD : q.getD n ∅ = q'.getD n ∅ := ExtTreeSet.ext_mem fun x => hextras n x
  by_cases hn : n ∈ q
  · have hn' := (hmem n).1 hn
    rw [ExtTreeMap.getElem?_eq_some_getD hn, ExtTreeMap.getElem?_eq_some_getD hn', hgetD]
  · rw [KeyMap.getElem?_eq_none_iff.2 hn, KeyMap.getElem?_eq_none_iff.2 fun h => hn ((hmem n).2 h)]

end Requests

namespace Closure

/-- There are requests on the names that are asked for. -/
theorem mem_requestsOf_iff {asked : List (String × List String)} {n : String} :
    n ∈ requestsOf asked ↔ n ∈ roots asked := by
  have hfold : ∀ q : Requests, n ∈ asked.foldl (fun q a => q.add a.1 a.2) q ↔
      n ∈ q ∨ n ∈ roots asked := by
    induction asked with
    | nil => exact fun q => (or_iff_left List.not_mem_nil).symm
    | cons a asked ih =>
      intro q
      have hcons : n ∈ roots (a :: asked) ↔ n = a.1 ∨ n ∈ roots asked := List.mem_cons
      rw [List.foldl_cons, ih, Requests.mem_add_iff, hcons, or_left_comm, or_assoc]
  exact (hfold ∅).trans (or_iff_right ExtTreeMap.not_mem_empty)

end Closure

variable {σ ε : Type}

/-- Declarations that ask for the same names, and for the same extras of them, lead to the same. -/
theorem Source.closure_congr (src : Source σ ε) {ds ds' : List Dependency}
    (h : ∀ a, a ∈ Closure.declaredAll src.environment ds ↔
      a ∈ Closure.declaredAll src.environment ds') (found : Findings) (s : σ) :
    src.closure ds found s = src.closure ds' found s := by
  have hroots : ∀ n, n ∈ Closure.roots (Closure.declaredAll src.environment ds) ↔
      n ∈ Closure.roots (Closure.declaredAll src.environment ds') := by
    intro n
    simp only [Closure.roots, List.mem_map, h]
  have hlayer : (ExtTreeSet.ofList (Closure.roots (Closure.declaredAll src.environment ds)) :
      Names) = ExtTreeSet.ofList (Closure.roots (Closure.declaredAll src.environment ds')) := by
    apply ExtTreeSet.ext_mem
    intro n
    rw [KeySet.mem_ofList, KeySet.mem_ofList, hroots]
  have hrequests : Closure.requestsOf (Closure.declaredAll src.environment ds) =
      Closure.requestsOf (Closure.declaredAll src.environment ds') := by
    refine Requests.ext (fun n => ?_) fun n x => ?_
    · rw [Closure.mem_requestsOf_iff, Closure.mem_requestsOf_iff, hroots]
    · simp only [Closure.mem_requestsOf, h]
  rw [Source.closure, Source.closure, hrequests]
  exact congrArg (fun layer => Closure.grow src _ layer ∅ _ found s) hlayer

/-! ### Spellings of a name -/

/-- The declaration under another name. -/
def Declared.respelled {α : Type} (d : Declared α) (name : String) : Declared α :=
  { d with name }

/-- The declaration under the canonical spelling of its name. -/
def Declared.withCanonicalName {α : Type} (d : Declared α) : Declared α :=
  d.respelled d.canonicalName

/-- The dependency with the canonical spelling of its name and of the names of its options. -/
def Dependency.canonicalized (d : Dependency) : Dependency :=
  match d.subject with
  | .one _ => d.withCanonicalName
  | .oneOf options =>
    (d.withSubject (.oneOf (options.map Declared.withCanonicalName))).withCanonicalName

/-- A list of declarations is written down in another way: in another order, with an entry that is
repeated, or with another spelling of a name, be it that of an entry or that of an option. -/
inductive Restates : List Dependency → List Dependency → Prop
  | permuted {ds ds' : List Dependency} (h : ds.Perm ds') : Restates ds ds'
  | repeated {ds : List Dependency} {d : Dependency} (h : d ∈ ds) : Restates ds (d :: ds)
  | name {before after : List Dependency} {d : Dependency} {name : String}
      (h : Name.canonical name = d.canonicalName) :
      Restates (before ++ d :: after) (before ++ d.respelled name :: after)
  | option {before after : List Dependency} {d : Dependency} {first rest : List Requirement}
      {r : Requirement} {name : String} (hchoice : d.subject = .oneOf (first ++ r :: rest))
      (h : Name.canonical name = r.canonicalName) :
      Restates (before ++ d :: after)
        (before ++ d.withSubject (.oneOf (first ++ r.respelled name :: rest)) :: after)

section Conditions

variable {α : Type}

theorem Declared.canonicalName_withCanonicalName (d : Declared α) :
    d.withCanonicalName.canonicalName = d.canonicalName :=
  Name.canonical_canonical d.name

/-- Spellings with the same canonical name have the same canonical spelling. -/
theorem Declared.withCanonicalName_respelled (d : Declared α) {name : String}
    (h : Name.canonical name = d.canonicalName) :
    (d.respelled name).withCanonicalName = d.withCanonicalName := by
  show d.respelled (Name.canonical name) = d.respelled d.canonicalName
  rw [h]

/-- The conditions of a declaration do not look at its name. -/
theorem Declared.applicable_map (env : Environment) (extras : Option Names)
    (l : List (Declared α)) : Declared.applicable env extras (l.map Declared.withCanonicalName) =
      (Declared.applicable env extras l).map (List.map Declared.withCanonicalName) := by
  induction l with
  | nil => rfl
  | cons d l ih =>
    have happlies : d.withCanonicalName.applies env extras = d.applies env extras := rfl
    rw [List.map_cons, applicable, applicable, happlies, ih]
    cases d.applies env extras with
    | error e => rfl
    | ok b =>
      cases Declared.applicable env extras l with
      | error e => rfl
      | ok rest => cases b <;> rfl

theorem selectOption_map (options : List Requirement) (env : Environment)
    (extras : Option Names) : selectOption (options.map Declared.withCanonicalName) env extras =
      (selectOption options env extras).map (Option.map Declared.withCanonicalName) := by
  rw [selectOption, selectOption, Declared.applicable_map]
  cases Declared.applicable env extras options with
  | error e => rfl
  | ok rs => exact congrArg Except.ok List.head?_map

end Conditions

namespace Closure

/-- What a dependency asks for is seen from its canonical spelling. -/
theorem declared_canonicalized (env : Environment) (d : Dependency) :
    declared env d.canonicalized = declared env d := by
  cases hd : d.subject with
  | one origin =>
    have hspelled : d.canonicalized = d.withCanonicalName := by rw [Dependency.canonicalized, hd]
    have hsubject : d.withCanonicalName.subject = .one origin := hd
    rw [hspelled, declared, declared, hsubject, hd, d.canonicalName_withCanonicalName]
    rfl
  | oneOf options =>
    let d' : Dependency := d.withSubject (.oneOf (options.map Declared.withCanonicalName))
    have hspelled : d.canonicalized = d'.withCanonicalName := by rw [Dependency.canonicalized, hd]
    have hsubject : d'.withCanonicalName.subject =
        .oneOf (options.map Declared.withCanonicalName) := rfl
    have hname : d'.withCanonicalName.canonicalName = d.canonicalName :=
      d'.canonicalName_withCanonicalName
    have happly : d'.withCanonicalName.mayApply env = d.mayApply env := rfl
    have hextras : d'.withCanonicalName.extras = d.extras := rfl
    rw [hspelled, declared, declared, hsubject, hd, hname, happly, hextras]
    dsimp only
    rw [selectOption_map]
    cases selectOption options env (some (ExtTreeSet.ofList d.extras)) with
    | error e => rfl
    | ok r =>
      cases r with
      | none => rfl
      | some r =>
        show (if _ then none
          else some (r.withCanonicalName.canonicalName, d.extras ++ r.extras)) = _
        rw [r.canonicalName_withCanonicalName]

/-- What a list of dependencies asks for is what its entries in their canonical spelling ask for. -/
theorem mem_declaredAll_canonicalized (env : Environment) (ds : List Dependency)
    (a : String × List String) :
    a ∈ declaredAll env ds ↔ ∃ c ∈ ds.map Dependency.canonicalized, declared env c = some a := by
  rw [declaredAll, List.mem_filterMap]
  constructor
  · intro h
    obtain ⟨d, hd, ha⟩ := h
    exact ⟨d.canonicalized, List.mem_map_of_mem hd, (declared_canonicalized env d).trans ha⟩
  · intro h
    obtain ⟨c, hc, ha⟩ := h
    obtain ⟨d, hd, hcanonical⟩ := List.mem_map.1 hc
    subst hcanonical
    exact ⟨d, hd, (declared_canonicalized env d).symm.trans ha⟩

end Closure

/-! ### Restated declarations -/

theorem Dependency.canonicalized_respelled (d : Dependency) {name : String}
    (h : Name.canonical name = d.canonicalName) :
    Dependency.canonicalized (d.respelled name) = d.canonicalized := by
  have hsubject : (d.respelled name).subject = d.subject := rfl
  rw [canonicalized, canonicalized, hsubject]
  cases d.subject with
  | one origin => exact d.withCanonicalName_respelled h
  | oneOf options =>
    let d' : Dependency := d.withSubject (.oneOf (options.map Declared.withCanonicalName))
    exact d'.withCanonicalName_respelled h

theorem Dependency.canonicalized_option {d : Dependency} {first rest : List Requirement}
    {r : Requirement} {name : String} (hchoice : d.subject = .oneOf (first ++ r :: rest))
    (h : Name.canonical name = r.canonicalName) :
    Dependency.canonicalized (d.withSubject (.oneOf (first ++ r.respelled name :: rest))) =
      d.canonicalized := by
  have hoptions : (first ++ r.respelled name :: rest).map Declared.withCanonicalName =
      (first ++ r :: rest).map Declared.withCanonicalName := by
    rw [List.map_append, List.map_append, List.map_cons, List.map_cons,
      r.withCanonicalName_respelled h]
  rw [canonicalized, canonicalized, hchoice]
  show _ = (d.withSubject (Choice.oneOf ((first ++ r :: rest).map _))).withCanonicalName
  rw [← hoptions]
  rfl

/-- Restated declarations have the same entries if all names are spelled canonically. -/
theorem Restates.mem_canonicalized {ds ds' : List Dependency} (h : Restates ds ds')
    (c : Dependency) :
    c ∈ ds.map Dependency.canonicalized ↔ c ∈ ds'.map Dependency.canonicalized := by
  cases h with
  | permuted h => exact (h.map Dependency.canonicalized).mem_iff
  | repeated h =>
    rw [List.map_cons, List.mem_cons, iff_or_self]
    intro hc
    rw [hc]
    exact List.mem_map_of_mem h
  | @name before after d name h =>
    rw [List.map_append, List.map_append, List.map_cons, List.map_cons,
      d.canonicalized_respelled h]
  | option hchoice h =>
    rw [List.map_append, List.map_append, List.map_cons, List.map_cons,
      Dependency.canonicalized_option hchoice h]

/-- The graph behind declared dependencies, or the failure to build it, what is known afterwards and
what the source was asked for do not depend on how the declarations are written down. -/
theorem Source.closure_restated (src : Source σ ε) (ds ds' : List Dependency)
    (h : EqvGen Restates ds ds') (found : Findings) (s : σ) :
    src.closure ds found s = src.closure ds' found s := by
  induction h with
  | rel ds ds' h =>
    refine src.closure_congr (fun a => ?_) found s
    rw [Closure.mem_declaredAll_canonicalized, Closure.mem_declaredAll_canonicalized]
    exact exists_congr fun c => and_congr_left fun _ => h.mem_canonicalized c
  | refl ds => rfl
  | symm ds ds' _ ih => exact ih.symm
  | trans ds ds' ds'' _ _ ih ih' => exact ih.trans ih'

/-- The dependency on one option. -/
def circleChoice (option : String) : Dependency :=
  Declared.plain "any" (.oneOf [Requirement.ofName option])

/-- A choice and a name. -/
def circleStated : List Dependency :=
  [circleChoice "App", (Requirement.ofName "lib").toDependency]

/-- The name first and twice, and both in another spelling. -/
def circleRestated : List Dependency :=
  [(Requirement.ofName "Lib").toDependency, (Requirement.ofName "Lib").toDependency,
    circleChoice "APP"]

theorem circleStated_restates : EqvGen Restates circleStated circleRestated := by
  let lib := (Requirement.ofName "lib").toDependency
  let lib' := (Requirement.ofName "Lib").toDependency
  have hoption : Restates [circleChoice "App", lib] [circleChoice "APP", lib] :=
    @Restates.option [] [lib] (circleChoice "App") [] [] (Requirement.ofName "App") "APP" rfl
      (by decide)
  have hname : Restates [circleChoice "APP", lib] [circleChoice "APP", lib'] :=
    @Restates.name [circleChoice "APP"] [] lib "Lib" (by decide)
  have hpermuted : Restates [circleChoice "APP", lib'] [lib', circleChoice "APP"] :=
    .permuted (.swap lib' (circleChoice "APP") [])
  have hrepeated : Restates [lib', circleChoice "APP"] circleRestated :=
    .repeated List.mem_cons_self
  exact (((EqvGen.rel _ _ hoption).trans _ _ _ (.rel _ _ hname)).trans _ _ _
    (.rel _ _ hpermuted)).trans _ _ _ (.rel _ _ hrepeated)

theorem closure_circleRestated :
    circle.source.closure circleRestated ∅ [] = circle.source.closure circleStated ∅ [] ∧
      (circle.source.closure circleRestated ∅ []).1 = .ok circleGraph := by
  have hsame := circle.source.closure_restated circleStated circleRestated circleStated_restates
    ∅ []
  have hgraph : (circle.source.closure circleStated ∅ []).1 = .ok circleGraph :=
    eq_ok_of_parts (by decide +kernel)
  refine ⟨hsame.symm, ?_⟩
  rw [← hsame]
  exact hgraph

end Requisite
