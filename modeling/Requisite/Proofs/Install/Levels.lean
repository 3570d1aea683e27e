import Requisite.Install.Plan
import Requisite.Proofs.Outcome

/-!
# Plans level by level

How a plan is read off the declared dependencies.  Each level stands for a list of requirements:
what does not apply is left out, and a choice is replaced by its option.  The requirements of
projects to link add the projects that were not met before, and what those projects depend on is the
next level; all others add their arguments.

* `Workspace.requested` — the requirements that a level stands for;
* `Workspace.fresh` — the projects that a level links for the first time;
* `Workspace.Reads`, `Workspace.Refuses` — the reading of a level, and the first fault in one;
* `Workspace.LevelByLevel` — the reading of a level with all levels below it;
* **`Workspace.level_eq_ok`**, **`Workspace.level_eq_error`** — a level of a plan is read;
* **`Workspace.levelByLevel_iff`** — the plan is the reading of all levels.
-/

namespace Requisite

/-! ### Declarations that apply -/

namespace Declared

variable {α : Type} {env : Environment} {extras : Option Names} {ds rest : List (Declared α)}
  {d : Declared α}

/-- The conditions of a declaration have a value, and hold. -/
def holds (env : Environment) (extras : Option Names) (d : Declared α) : Bool :=
  match d.applies env extras with
  | .ok b => b
  | .error _ => false

theorem holds_iff : d.holds env extras = true ↔ d.applies env extras = .ok true := by
  unfold holds
  cases d.applies env extras with
  | error e => exact iff_of_false Bool.false_ne_true nofun
  | ok b => simp

/-- Where all conditions have a value, the applicable declarations are those whose conditions
hold. -/
theorem applicable_eq_filter (h : applicable env extras ds = .ok rest) :
    rest = ds.filter (holds env extras) := by
  induction ds generalizing rest with
  | nil => exact (Except.ok.inj h).symm
  | cons d ds ih =>
    rw [applicable] at h
    split at h
    next => cases h
    next b hb =>
      obtain ⟨rest', hrest, rfl⟩ := Outcome.of_map h
      have hd : d.holds env extras = b := by rw [holds, hb]
      rw [List.filter_cons, hd, ih hrest]

theorem mem_applicable_iff (h : applicable env extras ds = .ok rest) :
    d ∈ rest ↔ d ∈ ds ∧ d.applies env extras = .ok true := by
  rw [applicable_eq_filter h, List.mem_filter, holds_iff]

end Declared

/-- The option that is selected is the first one whose conditions hold. -/
theorem selectOption_eq_find? {env : Environment} {extras : Option Names}
    {options : List Requirement} {o : Option Requirement}
    (h : selectOption options env extras = .ok o) :
    o = options.find? (Declared.holds env extras) := by
  obtain ⟨rest, hrest, rfl⟩ := Outcome.of_map h
  rw [Declared.applicable_eq_filter hrest, List.head?_filter]

/-- The option that is selected is one that applies. -/
theorem selectOption_eq_some {env : Environment} {extras : Option Names}
    {options : List Requirement} {r : Requirement}
    (h : selectOption options env extras = .ok (some r)) :
    r ∈ options ∧ r.applies env extras = .ok true := by
  have hfind := (selectOption_eq_find? h).symm
  exact ⟨List.mem_of_find?_eq_some hfind, Declared.holds_iff.1 (List.find?_some hfind)⟩

/-! ### Projects to link -/

/-- The project that a requirement links, with the extras that it asks of the project. -/
def Requirement.linked? (r : Requirement) : Option (Path × List String) :=
  match r.subject with
  | .directory project _ true => some (project, r.extras)
  | _ => none

namespace Plan

/-- The plan with what another one does behind it. -/
def followedBy (plan next : Plan) : Plan :=
  ⟨plan.arguments ++ next.arguments, plan.link ++ next.link⟩

@[simp] theorem link_followedBy (plan next : Plan) :
    (plan.followedBy next).link = plan.link ++ next.link := rfl

@[simp] theorem followedBy_empty (plan : Plan) : plan.followedBy ∅ = plan := by
  show (⟨plan.arguments ++ [], plan.link ++ []⟩ : Plan) = plan
  rw [List.append_nil, List.append_nil]

theorem followedBy_assoc (a b c : Plan) :
    (a.followedBy b).followedBy c = a.followedBy (b.followedBy c) := by
  simp [followedBy]

end Plan

namespace Workspace

/-! ### Reading a level -/

/-- The requirements that some dependencies stand for, in their order. -/
def requested (env : Environment) (ds : List Dependency) :
    Except DependencyError (List Requirement) :=
  (ds.mapM (chosen env)).map (List.filterMap id)

/-- The projects that some requirements link and that were not seen before, each with the extras of
the requirement that it is met in first. -/
def fresh : (seen : List Path) → List Requirement → List (Path × List String)
  | _, [] => []
  | seen, r :: rs =>
    match r.linked? with
    | none => fresh seen rs
    | some (project, extras) =>
      if seen.any (·.same project) then fresh seen rs
      else (project, extras) :: fresh (seen ++ [project]) rs

/-- What pip is asked for because of a requirement: a project that is linked is not installed. -/
def installed (r : Requirement) : List String :=
  if r.linked?.isSome then [] else r.arguments

/-- The plan of the requirements that a level stands for. -/
def ofLevel (seen : List Path) (rs : List Requirement) : Plan :=
  ⟨rs.flatMap installed, (fresh seen rs).map Prod.fst⟩

/-- The dependencies `ds` stand for the requirements `rs`, and the projects that these link for the
first time depend on `more`, a list for each. -/
structure Reads (w : Workspace) (env : Environment) (seen : List Path) (ds : List Dependency)
    (rs : List Requirement) (more : List (List Dependency)) : Prop where
  requested : requested env ds = .ok rs
  isDirectory : ∀ r ∈ rs, ∀ a ∈ r.linked?, w.isDirectory a.1 = true
  contributed : (fresh seen rs).mapM (fun a => w.contribution env a.1 a.2) = .ok more

/-- A dependency is at fault: a condition has no value, it links what is no directory, or the
project that it links has a dependency with a condition that has no value. -/
inductive Blocks (w : Workspace) (env : Environment) (seen : List Path) (x : Dependency) :
    PlanError → Prop
  | undecided {e : DependencyError} (h : chosen env x = .error e) :
      Blocks w env seen x (.dependency e)
  | notDirectory {r : Requirement} {project : Path} {extras : List String}
      (hx : chosen env x = .ok (some r)) (hr : r.linked? = some (project, extras))
      (h : w.isDirectory project = false) :
      Blocks w env seen x (.link ⟨project, "not a directory"⟩)
  | contribution {r : Requirement} {project : Path} {extras : List String} {e : DependencyError}
      (hx : chosen env x = .ok (some r)) (hr : r.linked? = some (project, extras))
      (hd : w.isDirectory project = true) (hn : seen.any (·.same project) = false)
      (h : w.contribution env project extras = .error e) :
      Blocks w env seen x (.dependency e)

/-- The first dependency of a level that is at fault, all before it being read. -/
def Refuses (w : Workspace) (env : Environment) (seen : List Path) (ds : List Dependency)
    (e : PlanError) : Prop :=
  ∃ before x after rs more, ds = before ++ x :: after ∧ Reads w env seen before rs more ∧
    Blocks w env (seen ++ (ofLevel seen rs).link) x e

/-- The reading of a level and of all levels below it, up to the first fault. -/
inductive LevelByLevel (w : Workspace) (env : Environment) :
    (seen : List Path) → List Dependency → Except PlanError Plan → Prop
  | done {seen : List Path} : LevelByLevel w env seen [] (.ok ∅)
  | level {seen : List Path} {ds : List Dependency} {rs : List Requirement}
      {more : List (List Dependency)} {r : Except PlanError Plan} (hne : ds ≠ [])
      (hlevel : Reads w env seen ds rs more)
      (hnext : LevelByLevel w env (seen ++ (ofLevel seen rs).link) more.flatten r) :
      LevelByLevel w env seen ds (r.map (ofLevel seen rs).followedBy)
  | refused {seen : List Path} {ds : List Dependency} {e : PlanError}
      (hlevel : Refuses w env seen ds e) : LevelByLevel w env seen ds (.error e)

variable {w : Workspace} {env : Environment} {seen : List Path}

/-! ### One list after another -/

theorem requested_append {ds ds' : List Dependency} {rs : List Requirement} :
    requested env (ds ++ ds') = .ok rs ↔ ∃ rs₁ rs₂, requested env ds = .ok rs₁ ∧
      requested env ds' = .ok rs₂ ∧ rs = rs₁ ++ rs₂ := by
  unfold requested
  rw [Outcome.mapM_append]
  constructor
  · intro h
    obtain ⟨os, hos, rfl⟩ := Outcome.of_map h
    obtain ⟨os₁, hos₁, hos⟩ := Outcome.of_bind hos
    obtain ⟨os₂, hos₂, rfl⟩ := Outcome.of_map hos
    refine ⟨_, _, ?_, ?_, List.filterMap_append⟩
    · rw [hos₁]
      rfl
    · rw [hos₂]
      rfl
  · intro h
    obtain ⟨rs₁, rs₂, h₁, h₂, rfl⟩ := h
    obtain ⟨os₁, hos₁, rfl⟩ := Outcome.of_map h₁
    obtain ⟨os₂, hos₂, rfl⟩ := Outcome.of_map h₂
    rw [hos₁, hos₂, ← List.filterMap_append]
    rfl

theorem fresh_append (seen : List Path) (rs rs' : List Requirement) :
    fresh seen (rs ++ rs') = fresh seen rs ++ fresh (seen ++ (fresh seen rs).map Prod.fst) rs' := by
  induction rs generalizing seen with
  | nil =>
    show fresh seen rs' = fresh (seen ++ []) rs'
    rw [List.append_nil]
  | cons r rs ih =>
    rw [List.cons_append, fresh, fresh]
    cases r.linked? with
    | none => exact ih seen
    | some a =>
      dsimp only
      split
      next => exact ih seen
      next =>
        rw [ih, List.map_cons, List.append_assoc]
        rfl

theorem ofLevel_append (seen : List Path) (rs rs' : List Requirement) :
    ofLevel seen (rs ++ rs') =
      (ofLevel seen rs).followedBy (ofLevel (seen ++ (ofLevel seen rs).link) rs') := by
  simp [ofLevel, Plan.followedBy, fresh_append]

theorem reads_append {ds ds' : List Dependency} {rs : List Requirement}
    {more : List (List Dependency)} : Reads w env seen (ds ++ ds') rs more ↔
      ∃ rs₁ more₁ rs₂ more₂, Reads w env seen ds rs₁ more₁ ∧
        Reads w env (seen ++ (ofLevel seen rs₁).link) ds' rs₂ more₂ ∧
          rs = rs₁ ++ rs₂ ∧ more = more₁ ++ more₂ := by
  constructor
  · intro h
    obtain ⟨hrequested, hdirectory, hmore⟩ := h
    obtain ⟨rs₁, rs₂, h₁, h₂, rfl⟩ := requested_append.1 hrequested
    rw [fresh_append, Outcome.mapM_append] at hmore
    obtain ⟨more₁, hmore₁, hmore⟩ := Outcome.of_bind hmore
    obtain ⟨more₂, hmore₂, rfl⟩ := Outcome.of_map hmore
    obtain ⟨hdirectory₁, hdirectory₂⟩ := List.forall_mem_append.1 hdirectory
    exact ⟨rs₁, more₁, rs₂, more₂, ⟨h₁, hdirectory₁, hmore₁⟩, ⟨h₂, hdirectory₂, hmore₂⟩, rfl, rfl⟩
  · intro h
    obtain ⟨rs₁, more₁, rs₂, more₂, hreads₁, hreads₂, rfl, rfl⟩ := h
    obtain ⟨h₁, hdirectory₁, hmore₁⟩ := hreads₁
    obtain ⟨h₂, hdirectory₂, hmore₂⟩ := hreads₂
    refine ⟨requested_append.2 ⟨rs₁, rs₂, h₁, h₂, rfl⟩,
      List.forall_mem_append.2 ⟨hdirectory₁, hdirectory₂⟩, ?_⟩
    have hlink : (fresh seen rs₁).map Prod.fst = (ofLevel seen rs₁).link := rfl
    rw [fresh_append, hlink, Outcome.mapM_append, hmore₁, hmore₂]
    rfl

theorem reads_nil {rs : List Requirement} {more : List (List Dependency)} :
    Reads w env seen [] rs more ↔ rs = [] ∧ more = [] := by
  constructor
  · intro h
    obtain ⟨hrequested, -, hmore⟩ := h
    obtain rfl := Except.ok.inj hrequested
    exact ⟨rfl, (Except.ok.inj hmore).symm⟩
  · rintro ⟨rfl, rfl⟩
    exact ⟨rfl, nofun, rfl⟩

/-! ### One dependency -/

theorem addRequirement_of_linked {d : Draft} {r : Requirement} {project : Path}
    {extras : List String} (h : r.linked? = some (project, extras)) :
    w.addRequirement env d r = w.addProject env d project extras := by
  unfold Requirement.linked? at h
  cases hr : r.subject with
  | registry | repository | archive =>
    rw [hr] at h
    nomatch h
  | directory path develop link =>
    rw [hr] at h
    cases link with
    | false => nomatch h
    | true =>
      obtain ⟨rfl, rfl⟩ := Prod.mk.inj (Option.some.inj h)
      rw [addRequirement, hr]

theorem addRequirement_of_linked_eq_none {d : Draft} {r : Requirement} (h : r.linked? = none) :
    w.addRequirement env d r =
      .ok { d with plan := { d.plan with arguments := d.plan.arguments ++ r.arguments } } := by
  unfold Requirement.linked? at h
  cases hr : r.subject with
  | registry | repository | archive => rw [addRequirement, hr]
  | directory path develop link =>
    rw [hr] at h
    cases link with
    | false => rw [addRequirement, hr]
    | true => nomatch h

theorem level_singleton (x : Dependency) (d : Draft) : w.level env [x] d =
    match chosen env x with
    | .error e => .error (.dependency e)
    | .ok none => .ok d
    | .ok (some r) => w.addRequirement env d r := by
  rw [level]
  cases chosen env x with
  | error e => rfl
  | ok o =>
    cases o with
    | none => rfl
    | some r =>
      dsimp only
      cases w.addRequirement env d r <;> rfl

theorem level_append (xs ys : List Dependency) (d : Draft) :
    w.level env (xs ++ ys) d = w.level env xs d >>= w.level env ys := by
  induction xs generalizing d with
  | nil => rfl
  | cons x xs ih =>
    rw [List.cons_append, level, level]
    cases chosen env x with
    | error e => rfl
    | ok o =>
      cases o with
      | none => exact ih d
      | some r =>
        dsimp only
        cases w.addRequirement env d r with
        | error e => rfl
        | ok d' => exact ih d'

/-- The reading of a requirement: one that links a project again adds nothing. -/
theorem fresh_singleton (seen : List Path) (r : Requirement) : fresh seen [r] =
    match r.linked? with
    | none => []
    | some a => if seen.any (·.same a.1) then [] else [a] := by
  rw [fresh]
  cases r.linked? <;> rfl

theorem requested_singleton {x : Dependency} {rs : List Requirement} :
    requested env [x] = .ok rs ↔ ∃ o, chosen env x = .ok o ∧ rs = o.toList := by
  unfold requested
  rw [List.mapM_cons]
  constructor
  · intro h
    obtain ⟨os, hos, rfl⟩ := Outcome.of_map h
    obtain ⟨o, ho, hos⟩ := Outcome.of_bind hos
    obtain rfl := Except.ok.inj hos
    exact ⟨o, ho, by cases o <;> rfl⟩
  · intro h
    obtain ⟨o, ho, rfl⟩ := h
    rw [ho]
    cases o <;> rfl

/-! ### Drafts of a level -/

/-- The draft with what was read of a level. -/
def Draft.extended (d : Draft) (rs : List Requirement) (more : List (List Dependency)) : Draft :=
  ⟨d.plan.followedBy (ofLevel d.plan.link rs), d.next ++ more.flatten⟩

@[simp] theorem Draft.extended_nil (d : Draft) : d.extended [] [] = d := by
  show (⟨d.plan.followedBy ∅, d.next ++ []⟩ : Draft) = d
  rw [Plan.followedBy_empty, List.append_nil]

theorem Draft.extended_append (d : Draft) (rs rs' : List Requirement)
    (more more' : List (List Dependency)) :
    d.extended (rs ++ rs') (more ++ more') = (d.extended rs more).extended rs' more' := by
  simp [extended, ofLevel_append, Plan.followedBy_assoc]

/-- A requirement that links no new project adds what pip is asked for because of it. -/
theorem Draft.extended_of_fresh_eq_nil {d : Draft} {r : Requirement}
    (h : fresh d.plan.link [r] = []) : d.extended [r] [] =
      ⟨{ d.plan with arguments := d.plan.arguments ++ installed r }, d.next⟩ := by
  simp [extended, ofLevel, Plan.followedBy, h]

/-- A requirement adds the one draft that the contributions of its projects make. -/
theorem exists_extended_iff {d e : Draft} {r : Requirement} (lists : List (List Dependency))
    (h : (fresh d.plan.link [r]).mapM (fun a => w.contribution env a.1 a.2) = .ok lists) :
    (∃ more, (fresh d.plan.link [r]).mapM (fun a => w.contribution env a.1 a.2) = .ok more ∧
      e = d.extended [r] more) ↔ d.extended [r] lists = e := by
  rw [h]
  constructor
  · intro h'
    obtain ⟨more, hmore, he⟩ := h'
    rw [he, Except.ok.inj hmore]
  · intro he
    exact ⟨lists, rfl, he.symm⟩

/-- What a requirement adds to a draft, if its project is a directory and can be asked. -/
theorem addRequirement_eq_ok {d e : Draft} {r : Requirement} :
    w.addRequirement env d r = .ok e ↔ (∀ a ∈ r.linked?, w.isDirectory a.1 = true) ∧
      ∃ more, (fresh d.plan.link [r]).mapM (fun a => w.contribution env a.1 a.2) = .ok more ∧
        e = d.extended [r] more := by
  cases hr : r.linked? with
  | none =>
    have hinstalled : installed r = r.arguments := by simp [installed, hr]
    have hfresh : fresh d.plan.link [r] = [] := by rw [fresh_singleton, hr]
    rw [exists_extended_iff [] (by rw [hfresh]; rfl), Draft.extended_of_fresh_eq_nil hfresh,
      addRequirement_of_linked_eq_none hr, hinstalled, Except.ok.injEq]
    exact (and_iff_right nofun).symm
  | some a =>
    obtain ⟨project, extras⟩ := a
    have hinstalled : installed r = [] := by simp [installed, hr]
    have hfresh : fresh d.plan.link [r] =
        if d.plan.links project then [] else [(project, extras)] := by
      rw [fresh_singleton, hr]
      rfl
    simp only [Option.mem_some_iff, forall_eq']
    rw [addRequirement_of_linked hr, addProject]
    cases hd : w.isDirectory project with
    | false => exact iff_of_false nofun nofun
    | true =>
      rw [Bool.not_true, if_neg Bool.false_ne_true, eq_self, true_and]
      cases hn : d.plan.links project with
      | true =>
        rw [hn, if_pos rfl] at hfresh
        rw [exists_extended_iff [] (by rw [hfresh]; rfl), Draft.extended_of_fresh_eq_nil hfresh,
          if_pos rfl, hinstalled, List.append_nil, Except.ok.injEq]
      | false =>
        rw [hn, if_neg Bool.false_ne_true] at hfresh
        rw [if_neg Bool.false_ne_true]
        cases hmore : w.contribution env project extras with
        | error e' =>
          rw [hfresh, List.mapM_cons, hmore]
          exact iff_of_false nofun nofun
        | ok more =>
          have hdraft : d.extended [r] [more] =
              ⟨{ d.plan with link := d.plan.link ++ [project] }, d.next ++ more⟩ := by
            simp [Draft.extended, ofLevel, Plan.followedBy, hfresh, hinstalled]
          have hlists : (fresh d.plan.link [r]).mapM (fun a => w.contribution env a.1 a.2) =
              .ok [more] := by
            rw [hfresh, List.mapM_cons, hmore]
            rfl
          rw [exists_extended_iff [more] hlists, hdraft, Except.ok.injEq]

theorem level_singleton_eq_ok {x : Dependency} {d e : Draft} : w.level env [x] d = .ok e ↔
    ∃ rs more, Reads w env d.plan.link [x] rs more ∧ e = d.extended rs more := by
  rw [level_singleton]
  cases hx : chosen env x with
  | error e' =>
    refine iff_of_false nofun fun h => ?_
    obtain ⟨rs, more, hreads, -⟩ := h
    obtain ⟨o, ho, -⟩ := requested_singleton.1 hreads.requested
    nomatch hx.symm.trans ho
  | ok o =>
    have hrequested : requested env [x] = .ok o.toList := requested_singleton.2 ⟨o, hx, rfl⟩
    have hunique : ∀ {rs more}, Reads w env d.plan.link [x] rs more → rs = o.toList := by
      intro rs more h
      exact Except.ok.inj (h.requested.symm.trans hrequested)
    cases o with
    | none =>
      rw [Except.ok.injEq]
      constructor
      · intro h
        exact ⟨[], [], ⟨hrequested, nofun, rfl⟩, by rw [← h, d.extended_nil]⟩
      · intro h
        obtain ⟨rs, more, hreads, he⟩ := h
        obtain rfl := hunique hreads
        have hnil : more = [] := (Except.ok.inj hreads.contributed).symm
        rw [he, hnil]
        exact d.extended_nil.symm
    | some r =>
      show w.addRequirement env d r = .ok e ↔ _
      rw [addRequirement_eq_ok]
      constructor
      · intro h
        obtain ⟨hdirectory, more, hmore, he⟩ := h
        exact ⟨[r], more, ⟨hrequested, List.forall_mem_singleton.2 hdirectory, hmore⟩, he⟩
      · intro h
        obtain ⟨rs, more, hreads, he⟩ := h
        obtain rfl := hunique hreads
        exact ⟨List.forall_mem_singleton.1 hreads.isDirectory, more, hreads.contributed, he⟩

/-- The draft of a level is made of what is read of it. -/
theorem level_eq_ok {xs : List Dependency} {d e : Draft} : w.level env xs d = .ok e ↔
    ∃ rs more, Reads w env d.plan.link xs rs more ∧ e = d.extended rs more := by
  induction xs generalizing d with
  | nil =>
    rw [level, Except.ok.injEq]
    simp only [reads_nil]
    constructor
    · intro h
      exact ⟨[], [], ⟨rfl, rfl⟩, by rw [← h, d.extended_nil]⟩
    · intro h
      obtain ⟨_, _, ⟨rfl, rfl⟩, he⟩ := h
      rw [he, d.extended_nil]
  | cons x xs ih =>
    have hcons : x :: xs = [x] ++ xs := rfl
    rw [hcons, level_append]
    constructor
    · intro h
      obtain ⟨d', hx, hxs⟩ := Outcome.of_bind h
      obtain ⟨rs₁, more₁, hreads₁, rfl⟩ := level_singleton_eq_ok.1 hx
      obtain ⟨rs₂, more₂, hreads₂, rfl⟩ := ih.1 hxs
      exact ⟨rs₁ ++ rs₂, more₁ ++ more₂,
        reads_append.2 ⟨rs₁, more₁, rs₂, more₂, hreads₁, hreads₂, rfl, rfl⟩,
        (d.extended_append ..).symm⟩
    · intro h
      obtain ⟨rs, more, hreads, rfl⟩ := h
      obtain ⟨rs₁, more₁, rs₂, more₂, hreads₁, hreads₂, rfl, rfl⟩ := reads_append.1 hreads
      rw [level_singleton_eq_ok.2 ⟨rs₁, more₁, hreads₁, rfl⟩]
      exact ih.2 ⟨rs₂, more₂, hreads₂, d.extended_append ..⟩

/-! ### Faults -/

theorem addRequirement_eq_error {x : Dependency} {d : Draft} {r : Requirement} {e : PlanError}
    (hx : chosen env x = .ok (some r)) :
    w.addRequirement env d r = .error e ↔ Blocks w env d.plan.link x e := by
  have hunique : ∀ {r'}, chosen env x = .ok (some r') → r' = r := by
    intro r' h
    exact Option.some.inj (Except.ok.inj (h.symm.trans hx))
  constructor
  · intro h
    cases hr : r.linked? with
    | none =>
      rw [addRequirement_of_linked_eq_none hr] at h
      nomatch h
    | some a =>
      obtain ⟨project, extras⟩ := a
      rw [addRequirement_of_linked hr, addProject] at h
      split at h
      next hd =>
        rw [← Except.error.inj h]
        exact .notDirectory hx hr (by simpa using hd)
      next hd =>
        split at h
        next => nomatch h
        next hn =>
          split at h
          next e' he =>
            rw [← Except.error.inj h]
            exact .contribution hx hr (by simpa using hd) (Bool.eq_false_iff.2 hn) he
          next => nomatch h
  · intro h
    cases h with
    | undecided h => nomatch h.symm.trans hx
    | notDirectory hx' hr hd =>
      obtain rfl := hunique hx'
      rw [addRequirement_of_linked hr, addProject, hd]
      rfl
    | @contribution _ project _ _ hx' hr hd hn he =>
      obtain rfl := hunique hx'
      have hlinks : d.plan.links project = false := hn
      rw [addRequirement_of_linked hr, addProject, hd, hlinks, he]
      rfl

theorem level_singleton_eq_error {x : Dependency} {d : Draft} {e : PlanError} :
    w.level env [x] d = .error e ↔ Blocks w env d.plan.link x e := by
  rw [level_singleton]
  cases hx : chosen env x with
  | error e' =>
    rw [Except.error.injEq]
    constructor
    · intro h
      rw [← h]
      exact .undecided hx
    · intro h
      cases h with
      | undecided h => rw [Except.error.inj (hx.symm.trans h)]
      | notDirectory h => nomatch hx.symm.trans h
      | contribution h => nomatch hx.symm.trans h
  | ok o =>
    cases o with
    | none =>
      refine iff_of_false nofun fun h => ?_
      cases h with
      | undecided h => nomatch hx.symm.trans h
      | notDirectory h => nomatch hx.symm.trans h
      | contribution h => nomatch hx.symm.trans h
    | some r => exact addRequirement_eq_error hx

/-- A level has no draft if a dependency is at fault; the fault is that of the first such. -/
theorem level_eq_error {xs : List Dependency} {d : Draft} {e : PlanError} :
    w.level env xs d = .error e ↔ Refuses w env d.plan.link xs e := by
  constructor
  · intro h
    induction xs generalizing d with
    | nil => nomatch h
    | cons x xs ih =>
      have hcons : x :: xs = [x] ++ xs := rfl
      rw [hcons, level_append] at h
      cases hx : w.level env [x] d with
      | error e' =>
        rw [hx] at h
        obtain rfl := Except.error.inj h
        refine ⟨[], x, xs, [], [], rfl, reads_nil.2 ⟨rfl, rfl⟩, ?_⟩
        show Blocks w env (d.plan.link ++ []) x e'
        rw [List.append_nil]
        exact level_singleton_eq_error.1 hx
      | ok d' =>
        rw [hx] at h
        obtain ⟨rs₁, more₁, hreads₁, rfl⟩ := level_singleton_eq_ok.1 hx
        obtain ⟨before, y, after, rs₂, more₂, rfl, hreads₂, hblocks⟩ := ih h
        refine ⟨x :: before, y, after, rs₁ ++ rs₂, more₁ ++ more₂, rfl,
          reads_append.2 ⟨rs₁, more₁, rs₂, more₂, hreads₁, hreads₂, rfl, rfl⟩, ?_⟩
        rw [ofLevel_append, Plan.link_followedBy, ← List.append_assoc]
        exact hblocks
  · intro h
    obtain ⟨before, x, after, rs, more, rfl, hreads, hblocks⟩ := h
    have hcons : x :: after = [x] ++ after := rfl
    have hx : w.level env [x] (d.extended rs more) = .error e :=
      level_singleton_eq_error.2 hblocks
    have hbefore := level_eq_ok.2 ⟨rs, more, hreads, rfl⟩
    rw [level_append, hbefore]
    show w.level env (x :: after) (d.extended rs more) = .error e
    rw [hcons, level_append, hx]
    rfl

/-! ### All levels -/

theorem planFrom_nil (plan : Plan) : w.planFrom env [] plan = .ok plan := by
  rw [planFrom]
  rfl

theorem planFrom_of_ok {xs : List Dependency} {plan : Plan} {d : Draft}
    (h : w.level env xs ⟨plan, []⟩ = .ok d) :
    w.planFrom env xs plan = w.planFrom env d.next d.plan := by
  rw [planFrom]
  split
  next e he => cases h.symm.trans he
  next d' hd' =>
    obtain rfl := Except.ok.inj (h.symm.trans hd')
    split
    next hnil => rw [hnil, planFrom_nil]
    next => rfl

theorem planFrom_of_error {xs : List Dependency} {plan : Plan} {e : PlanError}
    (h : w.level env xs ⟨plan, []⟩ = .error e) : w.planFrom env xs plan = .error e := by
  rw [planFrom]
  split
  next e' he => rw [Except.error.inj (h.symm.trans he)]
  next d hd => cases h.symm.trans hd

/-- Whatever is read of a level and of those below it is added to the plan of the levels above. -/
theorem LevelByLevel.planFrom_eq {ds : List Dependency} {r : Except PlanError Plan}
    (h : LevelByLevel w env seen ds r) {plan : Plan} (hplan : plan.link = seen) :
    w.planFrom env ds plan = r.map plan.followedBy := by
  induction h generalizing plan with
  | done =>
    rw [planFrom_nil]
    exact congrArg Except.ok plan.followedBy_empty.symm
  | @level seen ds rs more r hne hlevel hnext ih =>
    subst hplan
    have hdraft : w.level env ds ⟨plan, []⟩ = .ok (Draft.extended ⟨plan, []⟩ rs more) :=
      level_eq_ok.2 ⟨rs, more, hlevel, rfl⟩
    rw [planFrom_of_ok hdraft]
    show w.planFrom env more.flatten (plan.followedBy (ofLevel plan.link rs)) = _
    rw [ih rfl]
    cases r with
    | error e => rfl
    | ok p => exact congrArg Except.ok (Plan.followedBy_assoc ..)
  | refused hlevel =>
    subst hplan
    rw [planFrom_of_error (level_eq_error.2 hlevel)]
    rfl

/-- Every list of dependencies has a reading: a plan has no more levels than projects to link. -/
theorem exists_levelByLevel (w : Workspace) (env : Environment) (ds : List Dependency)
    (plan : Plan) : ∃ r, LevelByLevel w env plan.link ds r := by
  induction ds, plan using planFrom.induct w env with
  | case1 ds plan e he => exact ⟨_, .refused (level_eq_error.1 he)⟩
  | case2 ds plan d hd hnil =>
    obtain ⟨rs, more, hlevel, rfl⟩ := level_eq_ok.1 hd
    have hmore : more.flatten = [] := hnil
    cases ds with
    | nil => exact ⟨_, .done⟩
    | cons x xs => exact ⟨_, .level (List.cons_ne_nil x xs) hlevel (by rw [hmore]; exact .done)⟩
  | case3 ds plan d hd hne ih =>
    obtain ⟨rs, more, hlevel, rfl⟩ := level_eq_ok.1 hd
    obtain ⟨r, hr⟩ := ih
    refine ⟨_, .level ?_ hlevel hr⟩
    rintro rfl
    obtain ⟨rfl, rfl⟩ := reads_nil.1 hlevel
    exact hne rfl

/-- The plan is what is read level by level, and nothing else is. -/
theorem levelByLevel_iff {ds : List Dependency} {r : Except PlanError Plan} :
    LevelByLevel w env [] ds r ↔ r = w.plan env ds := by
  have hplan : ∀ {r}, LevelByLevel w env [] ds r → r = w.plan env ds := by
    intro r h
    rw [plan, h.planFrom_eq rfl]
    cases r <;> rfl
  refine ⟨hplan, fun h => ?_⟩
  obtain ⟨r', hr'⟩ := exists_levelByLevel w env ds ∅
  rw [h, ← hplan hr']
  exact hr'

end Workspace

end Requisite
