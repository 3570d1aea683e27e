import Requisite.Proofs.Install.Levels

/-!
# The requirements that a plan is made of

The levels of a plan, one after the other, stand for a list of requirements.  The plan is that of a
single level which declares them all: what was declared, and behind it what the linked projects
depend on, each under the extras of the requirement that it is met in first.

* `Workspace.Plans` — the requirements that all levels stand for;
* `Plan.Includes` — what a requirement asks for is part of a plan;
* **`Workspace.plan_eq_ok_iff`** — a plan is made of its requirements;
* **`Workspace.Plans.reads`** — all levels are read as one;
* **`Workspace.includes_ofLevel`** — a plan includes each of its requirements;
* **`Workspace.mem_contribution`**, **`Workspace.chosen_released`** — what a project contributes.
-/

namespace Requisite

open Std

/-! ### Declarations that apply -/

namespace Declared

variable {α : Type} {env : Environment} {extras : Option Names} {d : Declared α}

/-- The declaration without its marker. -/
def released (d : Declared α) : Declared α :=
  { d with markers := none }

/-- A declaration that applies does so without its marker, whatever the extras. -/
theorem applies_released (h : d.applies env extras = .ok true) (extras' : Option Names) :
    d.released.applies env extras' = .ok true := by
  unfold applies at h ⊢
  rw [released]
  split at h
  next => nomatch h
  next => nomatch h
  next hadmits =>
    dsimp only
    rw [hadmits]
    rfl

end Declared

/-! ### Paths -/

namespace Path

theorem same_iff {p q : Path} : p.same q = true ↔ p.parts = q.parts := by
  rw [same, beq_iff_eq]

end Path

theorem Plan.links_iff {plan : Plan} {p : Path} :
    plan.links p = true ↔ ∃ q ∈ plan.link, q.parts = p.parts := by
  simp [links, Path.same_iff]

/-- The plan has what the requirement asks for: the project that it links is linked, or else pip is
asked for what it needs. -/
def Plan.Includes (plan : Plan) (r : Requirement) : Prop :=
  match r.linked? with
  | some a => plan.links a.1 = true
  | none => r.arguments <:+: plan.arguments

namespace Workspace

variable {w : Workspace} {env : Environment} {seen : List Path} {ds : List Dependency}
  {rs : List Requirement}

/-! ### All levels as one -/

/-- The dependencies `ds`, and those of the projects that are linked because of them, stand for the
requirements `rs`; the projects `seen` were linked before. -/
inductive Plans (w : Workspace) (env : Environment) :
    (seen : List Path) → List Dependency → List Requirement → Prop
  | done {seen : List Path} : Plans w env seen [] []
  | level {seen : List Path} {ds : List Dependency} {rs rs' : List Requirement}
      {more : List (List Dependency)} (hne : ds ≠ []) (hlevel : Reads w env seen ds rs more)
      (hnext : Plans w env (seen ++ (ofLevel seen rs).link) more.flatten rs') :
      Plans w env seen ds (rs ++ rs')

theorem LevelByLevel.exists_plans {r : Except PlanError Plan} (h : LevelByLevel w env seen ds r)
    {plan : Plan} (hplan : r = .ok plan) :
    ∃ rs, Plans w env seen ds rs ∧ plan = ofLevel seen rs := by
  induction h generalizing plan with
  | done => exact ⟨[], .done, (Except.ok.inj hplan).symm⟩
  | @level seen ds rs more r hne hlevel hnext ih =>
    obtain ⟨plan', hplan', rfl⟩ := Outcome.of_map hplan
    obtain ⟨rs', hrs', rfl⟩ := ih hplan'
    exact ⟨rs ++ rs', .level hne hlevel hrs', (ofLevel_append seen rs rs').symm⟩
  | refused => nomatch hplan

theorem Plans.levelByLevel (h : Plans w env seen ds rs) :
    LevelByLevel w env seen ds (.ok (ofLevel seen rs)) := by
  induction h with
  | done => exact .done
  | @level seen ds rs rs' more hne hlevel hnext ih =>
    rw [ofLevel_append]
    exact .level hne hlevel ih

/-- A plan is that of the requirements that its levels stand for. -/
theorem plan_eq_ok_iff {plan : Plan} : w.plan env ds = .ok plan ↔
    ∃ rs, Plans w env [] ds rs ∧ plan = ofLevel [] rs := by
  constructor
  · intro h
    exact (levelByLevel_iff.2 h.symm).exists_plans rfl
  · rintro ⟨rs, hrs, rfl⟩
    exact (levelByLevel_iff.1 hrs.levelByLevel).symm

/-- A level is read in one way only. -/
theorem Reads.unique {rs' : List Requirement} {more more' : List (List Dependency)}
    (h : Reads w env seen ds rs more) (h' : Reads w env seen ds rs' more') :
    rs = rs' ∧ more = more' := by
  obtain rfl := Except.ok.inj (h.requested.symm.trans h'.requested)
  exact ⟨rfl, Except.ok.inj (h.contributed.symm.trans h'.contributed)⟩

/-- Dependencies stand for their requirements in one way only. -/
theorem Plans.unique {rs' : List Requirement} (h : Plans w env seen ds rs)
    (h' : Plans w env seen ds rs') : rs = rs' := by
  induction h generalizing rs' with
  | done =>
    cases h' with
    | done => rfl
    | level hne => exact absurd rfl hne
  | level hne hlevel hnext ih =>
    cases h' with
    | done => exact absurd rfl hne
    | level hne' hlevel' hnext' =>
      obtain ⟨rfl, rfl⟩ := hlevel.unique hlevel'
      rw [ih hnext']

/-- All levels are read as one: the dependencies that were declared, and behind them those of the
projects that are linked for the first time. -/
theorem Plans.reads (h : Plans w env seen ds rs) :
    ∃ more, Reads w env seen (ds ++ more.flatten) rs more := by
  induction h with
  | done => exact ⟨[], reads_nil.2 ⟨rfl, rfl⟩⟩
  | @level seen ds rs rs' more hne hlevel hnext ih =>
    obtain ⟨more', hreads⟩ := ih
    refine ⟨more ++ more', ?_⟩
    rw [List.flatten_append]
    exact reads_append.2 ⟨rs, more, rs', more', hlevel, hreads, rfl, rfl⟩

/-! ### What a plan includes -/

theorem mem_requested (h : requested env ds = .ok rs) {r : Requirement} :
    r ∈ rs ↔ ∃ x ∈ ds, chosen env x = .ok (some r) := by
  obtain ⟨os, hos, rfl⟩ := Outcome.of_map h
  rw [List.mem_filterMap]
  constructor
  · rintro ⟨o, ho, rfl⟩
    exact Outcome.mem_of_mapM hos ho
  · rintro ⟨x, hx, hr⟩
    exact ⟨some r, Outcome.mem_of_mapM_of_eq hos hx hr, rfl⟩

theorem exists_chosen (h : requested env ds = .ok rs) {x : Dependency} (hx : x ∈ ds) :
    ∃ o, chosen env x = .ok o := by
  obtain ⟨os, hos, -⟩ := Outcome.of_map h
  exact Outcome.of_mapM hos hx

/-- A project that is linked for the first time is linked by a requirement. -/
theorem exists_of_mem_fresh {a : Path × List String} (h : a ∈ fresh seen rs) :
    ∃ r ∈ rs, r.linked? = some a := by
  induction rs generalizing seen with
  | nil => nomatch h
  | cons r rs ih =>
    have hlater : ∀ {seen'}, a ∈ fresh seen' rs → ∃ r' ∈ r :: rs, r'.linked? = some a := by
      intro seen' h'
      obtain ⟨r', hr', ha⟩ := ih h'
      exact ⟨r', List.mem_cons_of_mem r hr', ha⟩
    rw [fresh] at h
    split at h
    next => exact hlater h
    next project extras hr =>
      split at h
      next => exact hlater h
      next =>
        rcases List.mem_cons.1 h with rfl | h
        · exact ⟨r, List.mem_cons_self .., hr⟩
        · exact hlater h

/-- A project that a requirement links was linked before, or is linked for the first time. -/
theorem exists_mem_fresh (seen : List Path) {r : Requirement} (hr : r ∈ rs) {a : Path × List String}
    (ha : r.linked? = some a) :
    seen.any (·.same a.1) = true ∨ ∃ b ∈ fresh seen rs, b.1.same a.1 = true := by
  induction rs generalizing seen with
  | nil => cases hr
  | cons r' rs ih =>
    rw [fresh]
    split
    next hnone =>
      rcases List.mem_cons.1 hr with rfl | hr
      · cases hnone.symm.trans ha
      · exact ih seen hr
    next project extras hlinked =>
      split
      next hseen =>
        rcases List.mem_cons.1 hr with rfl | hr
        · obtain rfl := Option.some.inj (hlinked.symm.trans ha)
          exact Or.inl hseen
        · exact ih seen hr
      next =>
        rcases List.mem_cons.1 hr with rfl | hr
        · obtain rfl := Option.some.inj (hlinked.symm.trans ha)
          exact Or.inr ⟨_, List.mem_cons_self .., Path.same_iff.2 rfl⟩
        · rcases ih (seen ++ [project]) hr with hseen | ⟨b, hb, hsame⟩
          · rw [List.any_append, Bool.or_eq_true] at hseen
            refine hseen.imp_right fun hsame => ⟨_, List.mem_cons_self .., ?_⟩
            simpa using hsame
          · exact Or.inr ⟨b, List.mem_cons_of_mem _ hb, hsame⟩

/-- The projects of a plan are those that its requirements link. -/
theorem links_ofLevel {p : Path} :
    (ofLevel [] rs).links p = true ↔ ∃ r ∈ rs, ∃ a, r.linked? = some a ∧ a.1.same p = true := by
  rw [Plan.links_iff]
  constructor
  · rintro ⟨q, hq, hparts⟩
    obtain ⟨a, ha, rfl⟩ := List.mem_map.1 hq
    obtain ⟨r, hr, hlinked⟩ := exists_of_mem_fresh ha
    exact ⟨r, hr, a, hlinked, Path.same_iff.2 hparts⟩
  · rintro ⟨r, hr, a, ha, hsame⟩
    rcases exists_mem_fresh [] hr ha with hseen | ⟨b, hb, hb'⟩
    · nomatch hseen
    · exact ⟨b.1, List.mem_map_of_mem hb, (Path.same_iff.1 hb').trans (Path.same_iff.1 hsame)⟩

/-- A plan includes each of its requirements. -/
theorem includes_ofLevel {r : Requirement} (hr : r ∈ rs) : (ofLevel [] rs).Includes r := by
  unfold Plan.Includes
  split
  next a ha => exact links_ofLevel.2 ⟨r, hr, a, ha, Path.same_iff.2 rfl⟩
  next hnone =>
    have hinstalled : installed r = r.arguments := by simp [installed, hnone]
    obtain ⟨before, after, rfl⟩ := List.append_of_mem hr
    show r.arguments <:+: (before ++ r :: after).flatMap installed
    rw [List.flatMap_append, List.flatMap_cons, hinstalled]
    exact ⟨_, _, List.append_assoc ..⟩

/-! ### What a project contributes -/

theorem mem_contribution {project : Path} {extras : List String} {more : List Dependency}
    (h : w.contribution env project extras = .ok more) {x : Dependency} :
    x ∈ more ↔ ∃ d ∈ w.dependencies project,
      d.applies env (some (ExtTreeSet.ofList extras)) = .ok true ∧ x = d.released := by
  obtain ⟨rest, hrest, rfl⟩ := Outcome.of_map h
  rw [List.mem_map]
  constructor
  · rintro ⟨d, hd, rfl⟩
    obtain ⟨hmem, happlies⟩ := (Declared.mem_applicable_iff hrest).1 hd
    exact ⟨d, hmem, happlies, rfl⟩
  · rintro ⟨d, hmem, happlies, rfl⟩
    exact ⟨d, (Declared.mem_applicable_iff hrest).2 ⟨hmem, happlies⟩, rfl⟩

/-- With the declared dependencies is read what applies of the dependencies of the projects that are
linked for the first time. -/
theorem Reads.mem_flatten_iff {more : List (List Dependency)} (h : Reads w env seen ds rs more)
    {x : Dependency} : x ∈ more.flatten ↔ ∃ a ∈ fresh seen rs, ∃ d ∈ w.dependencies a.1,
      d.applies env (some (ExtTreeSet.ofList a.2)) = .ok true ∧ x = d.released := by
  rw [List.mem_flatten]
  constructor
  · rintro ⟨contributed, hcontributed, hx⟩
    obtain ⟨a, ha, hmore⟩ := Outcome.mem_of_mapM h.contributed hcontributed
    exact ⟨a, ha, (mem_contribution hmore).1 hx⟩
  · rintro ⟨a, ha, hx⟩
    obtain ⟨contributed, hcontributed⟩ := Outcome.of_mapM h.contributed ha
    have hmem := Outcome.mem_of_mapM_of_eq h.contributed ha hcontributed
    exact ⟨contributed, hmem, (mem_contribution hcontributed).2 hx⟩

/-- A dependency of a project that applies is its own requirement, or is chosen among its options
without extras. -/
theorem chosen_released {d : Dependency} {extras : Option Names}
    (h : d.applies env extras = .ok true) : chosen env d.released =
      match d.subject with
      | .one origin => .ok (some (d.released.withSubject origin))
      | .oneOf options => selectOption options env (some ∅) := by
  rw [chosen, Declared.applies_released h]
  rfl

end Workspace

end Requisite
