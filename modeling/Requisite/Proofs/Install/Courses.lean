import Mathlib.Data.List.Basic
import Requisite.Install.Basic
import Requisite.Proofs.Outcome

/-!
# Courses of an installation

The installation of a plan calls pip and links projects, and each of this may fail.  Whatever the
linker, pip and the indexes answer, no project is linked before pip has done its part, and nothing
is done after a failure.

* `Links` — the links of some projects in their order, up to the first one that is refused;
* `Course` — all courses that the installation of a plan can take;
* **`Linker.links_linkAll`**, **`Linker.course_carryOut`** — it takes one of them;
* `Careful`, **`Course.careful`** — what all courses have in common.
-/

namespace Requisite

/-! ### Courses of an installation -/

/-- The link of a project that is not refused. -/
def Event.link (project : Path) : Event :=
  .linked project (.ok ())

/-- The links of some projects in their order, up to the first one that is refused. -/
inductive Links (projects : List Path) : Installation → Prop
  | all : Links projects { result := .ok 0, events := projects.map .link }
  | refused {linked rest : List Path} {project : Path} {e : InstallError}
      (hprojects : projects = linked ++ project :: rest) :
      Links projects
        { result := .error e, events := linked.map .link ++ [.linked project (.error e)] }

/-- The courses that the installation of a plan can take. -/
inductive Course (executable : Path) (options : InstallOptions) (plan : Plan) : Installation → Prop
  | unneeded {done : Installation} (hplan : plan.hasRequirements = false)
      (hlinks : Links plan.link done) : Course executable options plan done
  | unindexed {e : IndexError} (hplan : plan.hasRequirements = true)
      (harguments : plan.pipArguments options = .error e) :
      Course executable options plan { result := .error (.index e) }
  | notStarted {arguments : List String} (hplan : plan.hasRequirements = true)
      (harguments : plan.pipArguments options = .ok arguments) :
      Course executable options plan
        { result := .error (.process (.notStarted executable))
          events := [.ran executable (.pip arguments) .notStarted] }
  | failed {arguments : List String} {code : Nat} {stdout stderr : String}
      (hplan : plan.hasRequirements = true) (harguments : plan.pipArguments options = .ok arguments)
      (hcode : code ≠ 0) :
      Course executable options plan
        { result := .ok code
          events := [.ran executable (.pip arguments) (.finished (some code) stdout stderr)] }
  | interrupted {arguments : List String} {stdout stderr : String}
      (hplan : plan.hasRequirements = true)
      (harguments : plan.pipArguments options = .ok arguments) :
      Course executable options plan
        { result := .ok (-1)
          events := [.ran executable (.pip arguments) (.finished none stdout stderr)] }
  | succeeded {arguments : List String} {stdout stderr : String} {done : Installation}
      (hplan : plan.hasRequirements = true) (harguments : plan.pipArguments options = .ok arguments)
      (hlinks : Links plan.link done) :
      Course executable options plan
        (done.after (.ran executable (.pip arguments) (.finished (some 0) stdout stderr)))

theorem Links.after {projects : List Path} {done : Installation} (h : Links projects done)
    (project : Path) : Links (project :: projects) (done.after (.link project)) := by
  cases h with
  | all => exact .all
  | refused hprojects =>
    rw [hprojects]
    exact .refused (List.cons_append ..).symm

namespace Linker

variable {ω : Type} {linker : Linker ω} {run : Runner ω} {executable : Path}
  {options : InstallOptions} {plan : Plan} {s s' : ω}

theorem linkAll_of_error {project : Path} {projects : List Path} {e : InstallError}
    (h : linker.link project s = (.error e, s')) :
    linker.linkAll (project :: projects) s =
      ({ result := .error e, events := [.linked project (.error e)] }, s') := by
  rw [linkAll, h]

theorem linkAll_of_ok {project : Path} {projects : List Path}
    (h : linker.link project s = (.ok (), s')) :
    linker.linkAll (project :: projects) s =
      ((linker.linkAll projects s').1.after (.link project), (linker.linkAll projects s').2) := by
  rw [linkAll, h]
  rfl

theorem carryOut_of_unneeded (hplan : plan.hasRequirements = false) :
    linker.carryOut run executable options plan s = linker.linkAll plan.link s := by
  rw [carryOut, hplan]
  rfl

theorem carryOut_of_error {e : IndexError} (hplan : plan.hasRequirements = true)
    (harguments : plan.pipArguments options = .error e) :
    linker.carryOut run executable options plan s = ({ result := .error (.index e) }, s) := by
  rw [carryOut, hplan, harguments]
  rfl

theorem carryOut_of_ok {arguments : List String} {outcome : Outcome}
    (hplan : plan.hasRequirements = true) (harguments : plan.pipArguments options = .ok arguments)
    (hrun : run executable (.pip arguments) s = (outcome, s')) :
    linker.carryOut run executable options plan s =
      ((linker.finish executable plan s' outcome).1.after
          (.ran executable (.pip arguments) outcome),
        (linker.finish executable plan s' outcome).2) := by
  rw [carryOut, hplan, harguments]
  dsimp only
  rw [hrun]
  rfl

variable (linker)

theorem links_linkAll (projects : List Path) (s : ω) :
    Links projects (linker.linkAll projects s).1 := by
  induction projects generalizing s with
  | nil => exact .all
  | cons project projects ih =>
    rcases hlink : linker.link project s with ⟨e | _, s'⟩
    · rw [linkAll_of_error hlink]
      exact @Links.refused _ [] _ _ _ rfl
    · rw [linkAll_of_ok hlink]
      exact (ih s').after project

theorem course_carryOut (run : Runner ω) (executable : Path) (options : InstallOptions)
    (plan : Plan) (s : ω) :
    Course executable options plan (linker.carryOut run executable options plan s).1 := by
  cases hplan : plan.hasRequirements with
  | false =>
    rw [carryOut_of_unneeded hplan]
    exact .unneeded hplan (linker.links_linkAll _ _)
  | true =>
    cases harguments : plan.pipArguments options with
    | error e =>
      rw [carryOut_of_error hplan harguments]
      exact .unindexed hplan harguments
    | ok arguments =>
      rcases hrun : run executable (.pip arguments) s with ⟨_ | ⟨code, stdout, stderr⟩, s'⟩
      · rw [carryOut_of_ok hplan harguments hrun]
        exact .notStarted hplan harguments
      · rw [carryOut_of_ok hplan harguments hrun]
        match code with
        | none => exact .interrupted hplan harguments
        | some 0 => exact .succeeded hplan harguments (linker.links_linkAll _ _)
        | some (code + 1) => exact .failed hplan harguments (Nat.succ_ne_zero code)

end Linker

/-! ### What the courses have in common -/

/-- pip has done its part: there is nothing to install, or it has succeeded. -/
def Plan.ReadyAfter (plan : Plan) (events : List Event) : Prop :=
  plan.hasRequirements = true →
    ∃ program call stdout stderr, .ran program call (.finished (some 0) stdout stderr) ∈ events

/-- The installation of a plan, in which nothing is half done. -/
structure Careful (executable : Path) (options : InstallOptions) (plan : Plan)
    (done : Installation) : Prop where
  /-- pip is called once if it has something to install, and nothing else is called. -/
  runs : done.runs = if plan.hasRequirements then
    (plan.pipArguments options).toOption.toList.map fun arguments => (executable, .pip arguments)
    else []
  /-- Nothing is done without the flags for indexes. -/
  unindexed (e : IndexError) : plan.hasRequirements = true → options.indexes.arguments = .error e →
    done = { result := .error (.index e) }
  /-- No project is linked before pip has done its part. -/
  linksAfter (before after : List Event) (project : Path) (answer : Except InstallError Unit) :
    done.events = before ++ .linked project answer :: after → plan.ReadyAfter before
  /-- The links are those of the plan, in its order. -/
  attempted : done.attempted <+: plan.link
  /-- A refused link is the end. -/
  stops (before after : List Event) (project : Path) (e : InstallError) :
    done.events = before ++ .linked project (.error e) :: after →
      after = [] ∧ done.result = .error e
  notStarted (program : Path) (call : Call) : .ran program call .notStarted ∈ done.events →
    done.result = .error (.process (.notStarted executable)) ∧ done.attempted = []
  /-- The status of pip is the result, unless it is zero. -/
  failed (program : Path) (call : Call) (code : Nat) (stdout stderr : String) :
    .ran program call (.finished (some code) stdout stderr) ∈ done.events → code ≠ 0 →
      done.result = .ok code ∧ done.attempted = []
  /-- A signal has ended pip, which leaves no status. -/
  interrupted (program : Path) (call : Call) (stdout stderr : String) :
    .ran program call (.finished none stdout stderr) ∈ done.events →
      done.result = .ok (-1) ∧ done.attempted = []
  /-- Once pip has done its part, all projects are linked unless one is refused. -/
  links : plan.ReadyAfter done.events →
    done.linked = plan.link ∧ done.result = .ok 0 ∨
      ∃ project e, .linked project (.error e) ∈ done.events
  complete : done.result = .ok 0 → done.linked = plan.link

theorem mem_of_eq_append_cons {events before after : List Event} {event : Event}
    (h : events = before ++ event :: after) : event ∈ events := by
  rw [h]
  exact List.mem_append_cons_self

theorem filterMap_map_link {f : Event → Option Path}
    (hf : ∀ project, f (.link project) = some project) (projects : List Path) :
    (projects.map .link).filterMap f = projects := by
  have hsome : f ∘ Event.link = some := funext hf
  rw [List.filterMap_map, hsome, List.filterMap_some]

section

variable {projects : List Path} {done : Installation}

theorem Links.notMem_ran (h : Links projects done) {program : Path} {call : Call}
    {outcome : Outcome} : .ran program call outcome ∉ done.events := by
  intro hmem
  cases h with
  | all =>
    obtain ⟨project, -, hproject⟩ := List.mem_map.1 hmem
    nomatch hproject
  | refused =>
    rcases List.mem_append.1 hmem with hmem | hmem
    · obtain ⟨project, -, hproject⟩ := List.mem_map.1 hmem
      nomatch hproject
    · nomatch List.mem_singleton.1 hmem

theorem Links.runs (h : Links projects done) : done.runs = [] := by
  refine List.filterMap_eq_nil_iff.2 fun event hevent => ?_
  cases event with
  | ran program call outcome => exact absurd hevent h.notMem_ran
  | linked project answer => rfl

theorem Links.attempted (h : Links projects done) : done.attempted <+: projects := by
  cases h with
  | all =>
    refine ⟨[], ?_⟩
    rw [Installation.attempted, filterMap_map_link fun _ => rfl, List.append_nil]
  | @refused linked rest project e hprojects =>
    refine ⟨rest, ?_⟩
    rw [Installation.attempted, List.filterMap_append, filterMap_map_link fun _ => rfl, hprojects,
      List.append_assoc]
    rfl

theorem Links.linked_of_ok (h : Links projects done) {code : Int}
    (hresult : done.result = .ok code) : done.linked = projects := by
  cases h with
  | all => exact filterMap_map_link (fun _ => rfl) projects
  | refused => nomatch hresult

theorem Links.linked_or_refused (h : Links projects done) :
    done.linked = projects ∧ done.result = .ok 0 ∨
      ∃ project e, .linked project (.error e) ∈ done.events := by
  cases h with
  | all => exact .inl ⟨filterMap_map_link (fun _ => rfl) projects, rfl⟩
  | refused => exact .inr ⟨_, _, List.mem_append_right _ (List.mem_singleton_self _)⟩

/-- A refused link is the last event, since there is only one. -/
theorem Links.stops (h : Links projects done) {before after : List Event} {project : Path}
    {e : InstallError} (hevents : done.events = before ++ .linked project (.error e) :: after) :
    after = [] ∧ done.result = .error e := by
  have hlink {projects : List Path} : .linked project (.error e) ∉ projects.map Event.link := by
    intro hmem
    obtain ⟨_, -, heq⟩ := List.mem_map.1 hmem
    nomatch heq
  cases h with
  | all => exact absurd (mem_of_eq_append_cons hevents) hlink
  | @refused linked rest project' e' hprojects =>
    -- if something came after it, it would be among the links that are not refused
    rcases List.eq_nil_or_concat after with rfl | ⟨after, last, rfl⟩
    · obtain ⟨-, hlast⟩ := List.append_inj' hevents rfl
      obtain ⟨-, heq⟩ := Event.linked.inj (List.cons.inj hlast).1
      exact ⟨rfl, congrArg Except.error (Except.error.inj heq)⟩
    · rw [List.concat_eq_append, ← List.cons_append, ← List.append_assoc] at hevents
      obtain ⟨hlinked, -⟩ := List.append_inj' hevents rfl
      exact absurd (mem_of_eq_append_cons hlinked) hlink

end

section

variable {executable : Path} {options : InstallOptions} {plan : Plan} {done : Installation}

theorem Plan.pipArguments_eq_error_iff {e : IndexError} :
    plan.pipArguments options = .error e ↔ options.indexes.arguments = .error e :=
  Outcome.map_eq_error_iff

theorem Course.runs (h : Course executable options plan done) :
    done.runs = if plan.hasRequirements then
      (plan.pipArguments options).toOption.toList.map fun arguments => (executable, .pip arguments)
      else [] := by
  cases h with
  | unneeded hplan hlinks =>
    rw [hplan]
    exact hlinks.runs
  | unindexed hplan harguments =>
    rw [hplan, harguments]
    rfl
  | notStarted hplan harguments =>
    rw [hplan, harguments]
    rfl
  | failed hplan harguments =>
    rw [hplan, harguments]
    rfl
  | interrupted hplan harguments =>
    rw [hplan, harguments]
    rfl
  | @succeeded arguments _ _ done hplan harguments hlinks =>
    rw [hplan, harguments]
    show (executable, Call.pip arguments) :: done.runs = [(executable, .pip arguments)]
    rw [hlinks.runs]

theorem Course.eq_of_indexes_eq_error (h : Course executable options plan done)
    (hplan : plan.hasRequirements = true) {e : IndexError}
    (hindexes : options.indexes.arguments = .error e) : done = { result := .error (.index e) } := by
  have hnone : plan.pipArguments options = .error e := Plan.pipArguments_eq_error_iff.2 hindexes
  cases h with
  | unneeded hplan' => cases hplan'.symm.trans hplan
  | unindexed _ harguments => rw [Except.error.inj (hnone.symm.trans harguments)]
  | notStarted _ harguments => nomatch hnone.symm.trans harguments
  | failed _ harguments => nomatch hnone.symm.trans harguments
  | interrupted _ harguments => nomatch hnone.symm.trans harguments
  | succeeded _ harguments => nomatch hnone.symm.trans harguments

/-- A link is part of the links of all projects, which follow a run of pip with the exit code zero
or no run at all. -/
theorem Course.linked_cases (h : Course executable options plan done) {before after : List Event}
    {project : Path} {answer : Except InstallError Unit}
    (hevents : done.events = before ++ .linked project answer :: after) :
    (plan.hasRequirements = false ∧ Links plan.link done) ∨
      ∃ program call stdout stderr links before', Links plan.link links ∧
        done = links.after (.ran program call (.finished (some 0) stdout stderr)) ∧
        before = .ran program call (.finished (some 0) stdout stderr) :: before' ∧
        links.events = before' ++ .linked project answer :: after := by
  cases h with
  | unneeded hplan hlinks => exact .inl ⟨hplan, hlinks⟩
  | unindexed => nomatch mem_of_eq_append_cons hevents
  | notStarted => nomatch List.mem_singleton.1 (mem_of_eq_append_cons hevents)
  | failed => nomatch List.mem_singleton.1 (mem_of_eq_append_cons hevents)
  | interrupted => nomatch List.mem_singleton.1 (mem_of_eq_append_cons hevents)
  | @succeeded arguments stdout stderr links hplan harguments hlinks =>
    rcases List.cons_eq_append_iff.1 hevents with ⟨-, heq⟩ | ⟨before', hbefore, hevents'⟩
    · nomatch heq
    · exact .inr ⟨executable, .pip arguments, stdout, stderr, links, before', hlinks, rfl, hbefore,
        hevents'⟩

/-- A run comes first, and it is the only event unless its exit code is zero. -/
theorem Course.of_ran (h : Course executable options plan done) {program : Path} {call : Call}
    {outcome : Outcome} (hmem : .ran program call outcome ∈ done.events) :
    match outcome with
    | .notStarted => done =
        { result := .error (.process (.notStarted executable))
          events := [.ran program call outcome] }
    | .finished (some code) _ _ => code ≠ 0 →
        done = { result := .ok code, events := [.ran program call outcome] }
    | .finished none _ _ =>
        done = { result := .ok (-1), events := [.ran program call outcome] } := by
  cases h with
  | unneeded hplan hlinks => exact absurd hmem hlinks.notMem_ran
  | unindexed => nomatch hmem
  | notStarted =>
    obtain ⟨rfl, rfl, rfl⟩ := Event.ran.inj (List.mem_singleton.1 hmem)
    rfl
  | failed =>
    obtain ⟨rfl, rfl, rfl⟩ := Event.ran.inj (List.mem_singleton.1 hmem)
    exact fun _ => rfl
  | interrupted =>
    obtain ⟨rfl, rfl, rfl⟩ := Event.ran.inj (List.mem_singleton.1 hmem)
    rfl
  | succeeded hplan harguments hlinks =>
    rcases List.mem_cons.1 hmem with heq | hmem
    · obtain ⟨rfl, rfl, rfl⟩ := Event.ran.inj heq
      exact fun hcode => absurd rfl hcode
    · exact absurd hmem hlinks.notMem_ran

theorem Course.linked_or_refused (h : Course executable options plan done)
    (hready : plan.ReadyAfter done.events) :
    done.linked = plan.link ∧ done.result = .ok 0 ∨
      ∃ project e, .linked project (.error e) ∈ done.events := by
  cases h with
  | unneeded hplan hlinks => exact hlinks.linked_or_refused
  | succeeded hplan harguments hlinks =>
    refine hlinks.linked_or_refused.imp id ?_
    rintro ⟨project, e, hmem⟩
    exact ⟨project, e, List.mem_cons_of_mem _ hmem⟩
  | unindexed hplan =>
    obtain ⟨_, _, _, _, hmem⟩ := hready hplan
    nomatch hmem
  | notStarted hplan =>
    obtain ⟨_, _, _, _, hmem⟩ := hready hplan
    nomatch List.mem_singleton.1 hmem
  | failed hplan _ hcode =>
    obtain ⟨_, _, _, _, hmem⟩ := hready hplan
    obtain ⟨-, -, heq⟩ := Event.ran.inj (List.mem_singleton.1 hmem)
    exact absurd (Option.some.inj (Outcome.finished.inj heq).1).symm hcode
  | interrupted hplan =>
    obtain ⟨_, _, _, _, hmem⟩ := hready hplan
    nomatch List.mem_singleton.1 hmem

theorem Course.attempted (h : Course executable options plan done) :
    done.attempted <+: plan.link := by
  cases h with
  | unneeded hplan hlinks => exact hlinks.attempted
  | succeeded hplan harguments hlinks => exact hlinks.attempted
  | unindexed => exact List.nil_prefix
  | notStarted => exact List.nil_prefix
  | failed => exact List.nil_prefix
  | interrupted => exact List.nil_prefix

theorem Course.linked_of_ok_zero (h : Course executable options plan done)
    (hresult : done.result = .ok 0) : done.linked = plan.link := by
  cases h with
  | unneeded hplan hlinks => exact hlinks.linked_of_ok hresult
  | succeeded hplan harguments hlinks => exact hlinks.linked_of_ok hresult
  | unindexed => nomatch hresult
  | notStarted => nomatch hresult
  | failed hplan harguments hcode =>
    exact absurd (Int.natCast_eq_zero.1 (Except.ok.inj hresult)) hcode
  | interrupted => nomatch hresult

/-- Nothing is half done on any course. -/
theorem Course.careful (h : Course executable options plan done) :
    Careful executable options plan done where
  runs := h.runs
  unindexed e hplan hindexes := h.eq_of_indexes_eq_error hplan hindexes
  linksAfter before after project answer hevents hplan := by
    rcases h.linked_cases hevents with
      ⟨hplan', -⟩ | ⟨program, call, stdout, stderr, _, _, -, -, rfl, -⟩
    · cases hplan'.symm.trans hplan
    · exact ⟨program, call, stdout, stderr, List.mem_cons_self⟩
  attempted := h.attempted
  stops before after project e hevents := by
    rcases h.linked_cases hevents with
      ⟨-, hlinks⟩ | ⟨_, _, _, _, links, _, hlinks, rfl, -, hevents'⟩
    · exact hlinks.stops hevents
    · exact hlinks.stops hevents'
  notStarted program call hmem := by
    obtain rfl : done = _ := h.of_ran hmem
    exact ⟨rfl, rfl⟩
  failed program call code stdout stderr hmem hcode := by
    obtain rfl : done = _ := h.of_ran hmem hcode
    exact ⟨rfl, rfl⟩
  interrupted program call stdout stderr hmem := by
    obtain rfl : done = _ := h.of_ran hmem
    exact ⟨rfl, rfl⟩
  links hready := h.linked_or_refused hready
  complete hresult := h.linked_of_ok_zero hresult

end

end Requisite
