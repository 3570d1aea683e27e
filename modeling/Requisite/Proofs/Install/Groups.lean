import Requisite.Proofs.Install.Requests
import Requisite.Proofs.Install.Worklist
import Requisite.Proofs.Requirement.Head

/-!
# Arguments in groups

What pip is asked for is put together from texts that somebody else wrote, and pip takes an argument
that starts with `-` for an option.  No text becomes one: each requirement contributes a group of
arguments, an option in a group is one that the installation writes itself, and it stands where it
belongs.

* `Argument.IsRequirement`, `Argument.IsProject`, `Argument.IsHash` — the forms of an argument;
* `Origin.Group` — the arguments that install a package, by where it comes from;
* `Dependency.IsRead` — the dependencies that somebody can write;
* **`Requirement.Readable.group`** — the arguments of a requirement that was read;
* **`Workspace.plan_arguments_grouped`** — a plan of dependencies that were read.
-/

namespace Requisite

open Text

/-! ### The forms of an argument -/

namespace Argument

/-- An argument that pip takes for an option. -/
def IsOption (a : String) : Prop :=
  a.toList.head? = some '-'

/-- A requirement, which starts with a letter or a digit. -/
def IsRequirement (a : String) : Prop :=
  ∃ c ∈ a.toList.head?, c.isAlphanum = true

/-- A project in the file system, which starts with `/` or `.`. -/
def IsProject (a : String) : Prop :=
  ∃ c ∈ a.toList.head?, c = '/' ∨ c = '.'

/-- A hash, which is not empty. -/
def IsHash (a : String) : Prop :=
  ∃ hash : List Char, hash ≠ [] ∧ a.toList = "--hash=".toList ++ hash

theorem IsRequirement.not_isOption {a : String} (h : IsRequirement a) : ¬IsOption a := by
  obtain ⟨c, hc, halphanum⟩ := h
  intro hoption
  obtain rfl := Option.some.inj (hc.symm.trans hoption)
  revert halphanum
  decide

theorem IsProject.not_isOption {a : String} (h : IsProject a) : ¬IsOption a := by
  obtain ⟨c, hc, hstart⟩ := h
  intro hoption
  obtain rfl := Option.some.inj (hc.symm.trans hoption)
  revert hstart
  decide

end Argument

open Argument

/-- The arguments that install a package from somewhere. -/
inductive Origin.Group : Origin → List String → Prop
  | registry {range : Range} {index : Option String} {requirement : String} {hashes : List String}
      (hrequirement : IsRequirement requirement) (hhashes : ∀ a ∈ hashes, IsHash a) :
      Group (.registry range index) (requirement :: hashes)
  | archive {url : String} {requirement : String} {hashes : List String}
      (hrequirement : IsRequirement requirement) (hhashes : ∀ a ∈ hashes, IsHash a) :
      Group (.archive url) (requirement :: hashes)
  | repository {url : String} {reference : Option Reference} {requirement : String}
      (hrequirement : IsRequirement requirement) : Group (.repository url reference) [requirement]
  | directory {path : Path} {link : Bool} {project : String} (hproject : IsProject project) :
      Group (.directory path false link) [project]
  | editable {path : Path} {link : Bool} {project : String} (hproject : IsProject project) :
      Group (.directory path true link) ["-e", project]

/-- An option in a group is a hash, or the `-e` in front of a project. -/
theorem Origin.Group.of_isOption {origin : Origin} {group : List String} (h : origin.Group group)
    {a : String} (ha : a ∈ group) (hoption : IsOption a) : IsHash a ∨ a = "-e" := by
  cases h with
  | registry hrequirement hhashes | archive hrequirement hhashes =>
    rcases List.mem_cons.1 ha with rfl | ha
    · exact absurd hoption hrequirement.not_isOption
    · exact Or.inl (hhashes a ha)
  | repository hrequirement =>
    obtain rfl := List.mem_singleton.1 ha
    exact absurd hoption hrequirement.not_isOption
  | directory hproject =>
    obtain rfl := List.mem_singleton.1 ha
    exact absurd hoption hproject.not_isOption
  | editable hproject =>
    rcases List.mem_cons.1 ha with rfl | ha
    · exact Or.inr rfl
    · obtain rfl := List.mem_singleton.1 ha
      exact absurd hoption hproject.not_isOption

/-! ### The arguments of a requirement -/

/-- Wherever a path points to, its argument is that of a project. -/
theorem Path.isProject_argument (p : Path) (rest : List Char) :
    IsProject (String.ofList (p.argument ++ rest)) := by
  unfold IsProject
  rw [String.toList_ofList, argument]
  split
  next heq =>
    rw [heq]
    exact ⟨'/', rfl, Or.inl rfl⟩
  next heq =>
    rw [heq]
    exact ⟨'.', rfl, Or.inr rfl⟩
  next => exact ⟨'.', rfl, Or.inr rfl⟩

theorem isHash_of_mem_hashArguments {hashes : List String} (h : ∀ hash ∈ hashes, hash.toList ≠ [])
    {a : String} (ha : a ∈ hashArguments hashes) : IsHash a := by
  obtain ⟨hash, hhash, rfl⟩ := List.mem_map.1 ha
  exact ⟨hash.toList, h hash hhash, String.toList_ofList⟩

namespace Requirement

/-- What starts with the name of a requirement is one. -/
theorem Readable.isRequirement {r : Requirement} (h : r.Readable) (rest : List Char) :
    IsRequirement (String.ofList (r.head ++ rest)) := by
  obtain ⟨c, cs, hname, hc⟩ := (Name.of_isValid h.name).2
  refine ⟨c, ?_, hc⟩
  rw [String.toList_ofList, Declared.head, hname]
  exact Option.mem_some_self c

/-- The arguments of a requirement that can be read are a group. -/
theorem Readable.group {r : Requirement} (h : r.Readable) : r.subject.Group r.arguments := by
  have hhashes : ∀ a ∈ hashArguments r.hashes, IsHash a :=
    fun a => isHash_of_mem_hashArguments fun hash hhash => (h.hashes hash hhash).1
  unfold arguments
  split
  next range index hsubject =>
    rw [hsubject]
    exact .registry (h.isRequirement _) hhashes
  next url hsubject =>
    rw [hsubject]
    refine .archive ?_ hhashes
    rw [List.append_assoc]
    exact h.isRequirement _
  next url reference hsubject =>
    rw [hsubject]
    refine .repository ?_
    rw [List.append_assoc, List.append_assoc]
    exact h.isRequirement _
  next path develop link hsubject =>
    rw [hsubject]
    cases develop with
    | false => exact .directory (path.isProject_argument _)
    | true => exact .editable (path.isProject_argument _)

end Requirement

/-! ### The arguments of a plan -/

theorem Requirement.toDependency_inj {r r' : Requirement} (h : r.toDependency = r'.toDependency) :
    r = r' := by
  cases r
  cases r'
  simpa [toDependency, Declared.withSubject] using h

/-- A dependency that somebody wrote. -/
def Dependency.IsRead (d : Dependency) : Prop :=
  ∃ text r, Requirement.parse text = .ok r ∧ d = r.toDependency

/-- A dependency on a requirement that can be read. -/
def Dependency.Readable (d : Dependency) : Prop :=
  ∃ r : Requirement, r.Readable ∧ d = r.toDependency

namespace Dependency

theorem IsRead.readable {d : Dependency} (h : d.IsRead) : d.Readable := by
  obtain ⟨text, r, hparse, rfl⟩ := h
  exact ⟨r, Requirement.readable_of_parse hparse, rfl⟩

/-- A dependency stays readable when its markers have done their work. -/
theorem Readable.released {d : Dependency} (h : d.Readable) : Readable (Declared.released d) := by
  obtain ⟨r, hr, rfl⟩ := h
  exact ⟨Declared.released r, ⟨hr.name, hr.extras, hr.python, hr.origin, nofun, hr.hashes⟩, rfl⟩

end Dependency

namespace Workspace

variable {w : Workspace} {env : Environment} {ds : List Dependency} {rs : List Requirement}

/-- A readable dependency stands for its own requirement. -/
theorem readable_of_chosen {x : Dependency} (h : x.Readable) {r : Requirement}
    (hr : chosen env x = .ok (some r)) : r.Readable := by
  obtain ⟨r', hr', rfl⟩ := h
  rcases (chosen_eq_some hr).2.2 with heq | ⟨options, hoptions, -⟩
  · obtain rfl := Requirement.toDependency_inj heq
    exact hr'
  · nomatch hoptions

/-- What is read with a level is readable if it was so when it was declared. -/
theorem Reads.readable_flatten {seen : List Path} {more : List (List Dependency)}
    (h : Reads w env seen ds rs more)
    (hprojects : ∀ p ∈ (ofLevel seen rs).link, ∀ d ∈ w.dependencies p, d.Readable) :
    ∀ x ∈ more.flatten, x.Readable := by
  intro x hx
  obtain ⟨a, ha, d, hd, -, rfl⟩ := h.mem_flatten_iff.1 hx
  exact (hprojects a.1 (List.mem_map_of_mem ha) d hd).released

/-- All requirements of a plan are readable if all dependencies are. -/
theorem Plans.readable (h : Plans w env [] ds rs) (hds : ∀ d ∈ ds, d.Readable)
    (hprojects : ∀ p ∈ (ofLevel [] rs).link, ∀ d ∈ w.dependencies p, d.Readable) :
    ∀ r ∈ rs, r.Readable := by
  obtain ⟨more, hreads⟩ := h.reads
  have hreadable := List.forall_mem_append.2 ⟨hds, hreads.readable_flatten hprojects⟩
  intro r hr
  obtain ⟨x, hx, hchosen⟩ := (mem_requested hreads.requested).1 hr
  exact readable_of_chosen (hreadable x hx) hchosen

/-- The arguments of a plan are those of the requirements that link no project, one after the
other. -/
theorem arguments_ofLevel (seen : List Path) (rs : List Requirement) : (ofLevel seen rs).arguments =
    ((rs.filter fun r => r.linked?.isNone).map Requirement.arguments).flatten := by
  show rs.flatMap installed = _
  induction rs with
  | nil => rfl
  | cons r rs ih =>
    rw [List.flatMap_cons, ih, List.filter_cons, installed]
    cases r.linked? <;> rfl

/-- The dependencies were read, and so were those of the projects that the plan links.  Then pip is
asked for one group of arguments after the other, one for each requirement that links no project.
All that it can take for options are the hashes and the `-e` in front of a project. -/
theorem plan_arguments_grouped {plan : Plan} (hds : ∀ d ∈ ds, d.IsRead)
    (hplan : w.plan env ds = .ok plan)
    (hprojects : ∀ p ∈ plan.link, ∀ d ∈ w.dependencies p, d.IsRead) :
    ∃ rs, Plans w env [] ds rs ∧
      plan.arguments = ((rs.filter fun r => r.linked?.isNone).map Requirement.arguments).flatten ∧
      (∀ r ∈ rs, r.subject.Group r.arguments) ∧
      ∀ a ∈ plan.arguments, IsOption a → IsHash a ∨ a = "-e" := by
  obtain ⟨rs, hrs, rfl⟩ := plan_eq_ok_iff.1 hplan
  have hreadable := hrs.readable (fun d hd => (hds d hd).readable)
    fun p hp d hd => (hprojects p hp d hd).readable
  have hgroup : ∀ r ∈ rs, r.subject.Group r.arguments := fun r hr => (hreadable r hr).group
  refine ⟨rs, hrs, arguments_ofLevel [] rs, hgroup, fun a ha hoption => ?_⟩
  rw [arguments_ofLevel] at ha
  obtain ⟨group, hmem, ha⟩ := List.mem_flatten.1 ha
  obtain ⟨r, hr, rfl⟩ := List.mem_map.1 hmem
  exact (hgroup r (List.mem_of_mem_filter hr)).of_isOption ha hoption

end Workspace

/-! ### Texts that look like options -/

/-- The dependencies that some texts denote. -/
def readAll (texts : List String) : List Dependency :=
  texts.filterMap fun text => (Requirement.parse text).toOption.map Requirement.toDependency

theorem isRead_of_mem_readAll {texts : List String} {d : Dependency} (h : d ∈ readAll texts) :
    d.IsRead := by
  obtain ⟨text, -, hd⟩ := List.mem_filterMap.1 h
  obtain ⟨r, hr, rfl⟩ := Option.map_eq_some_iff.1 hd
  cases hparse : Requirement.parse text with
  | error e =>
    rw [hparse] at hr
    nomatch hr
  | ok r' =>
    rw [hparse] at hr
    obtain rfl := Option.some.inj hr
    exact ⟨text, r', hparse, rfl⟩

/-- A project depends on what the table says. -/
theorem mem_dependencies_ofTable {isDirectory : Path → Bool} {table : List (Path × List Dependency)}
    {p : Path} {d : Dependency} (h : d ∈ (Workspace.ofTable isDirectory table).dependencies p) :
    ∃ e ∈ table, d ∈ e.2 := by
  have h : d ∈ ((table.find? fun e => p.same e.1).map Prod.snd).getD [] := h
  cases he : table.find? fun e => p.same e.1 with
  | none =>
    rw [he] at h
    nomatch h
  | some e =>
    rw [he] at h
    exact ⟨e, List.mem_of_find?_eq_some he, h⟩

/-- Wherever a text may hold what it likes, it looks like an option. -/
def optionTexts : List String :=
  ["kek[-r] --hash=-e", "zip @ https://--pre#sha256=--pre", "git @ git+--pre#rev=-v",
    "app[-e] @ ./-r#develop", "p[-q] @ /-p#link"]

/-- A linked project with such a dependency. -/
def optionProjects : Workspace :=
  .ofTable (fun _ => true) [(⟨"/-p"⟩, readAll ["dep @ ../-d; extra == '-q'"])]

/-- None of these texts becomes an option. -/
theorem plan_arguments_grouped_options : ∃ plan,
    optionProjects.plan plainEnvironment (readAll optionTexts) = .ok plan ∧
      plan.arguments = ["kek[-r]", "--hash=-e", "zip @ https://--pre", "--hash=sha256:--pre",
        "git @ git+--pre@-v", "-e", "./-r[-e]", "../-d"] ∧
      ∃ rs, Workspace.Plans optionProjects plainEnvironment [] (readAll optionTexts) rs ∧
        ∀ r ∈ rs, r.subject.Group r.arguments := by
  have hparts : (optionProjects.plan plainEnvironment (readAll optionTexts)).toOption.map
      Plan.arguments = some ["kek[-r]", "--hash=-e", "zip @ https://--pre", "--hash=sha256:--pre",
        "git @ git+--pre@-v", "-e", "./-r[-e]", "../-d"] := by decide +kernel
  have hproject : ∀ p, ∀ d ∈ optionProjects.dependencies p, d.IsRead := by
    intro p d hd
    obtain ⟨e, he, hd⟩ := mem_dependencies_ofTable hd
    obtain rfl := List.mem_singleton.1 he
    exact isRead_of_mem_readAll hd
  cases hplan : optionProjects.plan plainEnvironment (readAll optionTexts) with
  | error e =>
    rw [hplan] at hparts
    nomatch hparts
  | ok plan =>
    rw [hplan] at hparts
    obtain ⟨rs, hrs, -, hgroup, -⟩ := Workspace.plan_arguments_grouped
      (fun d hd => isRead_of_mem_readAll hd) hplan fun p _ => hproject p
    exact ⟨plan, rfl, Option.some.inj hparts, rs, hrs, hgroup⟩

end Requisite
