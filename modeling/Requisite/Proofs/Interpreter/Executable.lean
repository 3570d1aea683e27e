import Requisite.Interpreter.Executable
import Requisite.Proofs.FileTree

/-!
# The file that an interpreter is found at

A name is looked for in one entry of the search path after the other, and any other path is made
absolute.  A path that was made absolute denotes the same file from everywhere.  What was found on the
search path is as the entry is: if that is empty or relative, so is the result, and it denotes another
file, or none, once the current directory is another one.

* `Surroundings.Settled` — the current directory is where its path leads;
* `Surroundings.FirstWith` — the first entry of the search path that has a file;
* `Surroundings.follow_absolute` — a path that is made absolute leads where it led;
* **`Surroundings.resolve_denotes`** — what is found for a name and for any other path, and when nothing
  is;
* **`Surroundings.not_resolve_absolute`** — what is found is not absolute for every search path.
-/

namespace Requisite

open Text

namespace Path

variable {names : List (List Char)}

theorem isAbsolute_root (p : Path) : p.root.isAbsolute = true := by
  unfold root
  split <;> rfl

/-- Names below a path do not change where it starts. -/
theorem isAbsolute_below (p : Path) (hnames : ∀ n ∈ names, '/' ∉ n) :
    (p.below names).isAbsolute = p.isAbsolute := by
  induction names generalizing p with
  | nil => rfl
  | cons name names ih =>
    obtain ⟨hname, hnames⟩ := List.forall_mem_cons.1 hnames
    show (below (p.join _) names).isAbsolute = _
    rw [ih _ hnames, isAbsolute_join p (isAbsolute_of_notMem hname)]

end Path

namespace FileTree

variable {t : FileTree} {l : Location}

/-- Names below a path lead where they lead from the end of the path. -/
theorem walk_steps_below {p : Path} (hp : p.isAbsolute = true) {names : List (List Char)}
    (hnames : ∀ n ∈ names, '/' ∉ n) :
    t.walk l (p.below names).steps = (t.walk l p.steps).bind fun m => t.walk m names := by
  induction names generalizing p with
  | nil => exact (Option.bind_fun_some _).symm
  | cons name names ih =>
    obtain ⟨hname, hnames⟩ := List.forall_mem_cons.1 hnames
    have hjoin : (p.join ⟨String.ofList name⟩).isAbsolute = true := by
      rw [Path.isAbsolute_join p (Path.isAbsolute_of_notMem hname), hp]
    show t.walk l ((p.join ⟨String.ofList name⟩).below names).steps = _
    rw [ih hjoin hnames, walk_steps_join hp hname, Option.bind_assoc]
    exact congrArg _ (funext fun m => (walk_cons name names).symm)

theorem walk_steps_root (p : Path) : t.walk [] p.root.steps = some [] := by
  unfold Path.root
  split <;> rfl

end FileTree

namespace Surroundings

open FileTree

variable {w : Surroundings}

/-- The current directory is where its path leads, from the root. -/
structure Settled (w : Surroundings) : Prop where
  isAbsolute : w.current.isAbsolute = true
  walk_eq : w.tree.walk [] w.current.steps = some (locate w.current)

/-- An entry of the search path is the first one with a file of a name. -/
def FirstWith (w : Surroundings) (name entry : Path) : Prop :=
  ∃ before after, w.searched = before ++ entry :: after ∧ w.isFile (entry.join name) = true ∧
    ∀ d ∈ before, w.isFile (d.join name) = false

/-! ### Paths made absolute -/

/-- Where a path that is made absolute starts. -/
def start (w : Surroundings) (p : Path) : Path :=
  if p.isAbsolute then p.root else w.current

theorem Settled.isAbsolute_start (hw : w.Settled) (p : Path) : (w.start p).isAbsolute = true := by
  unfold start
  split
  next => exact p.isAbsolute_root
  next => exact hw.isAbsolute

theorem Settled.walk_start (hw : w.Settled) (p : Path) :
    w.tree.walk [] (w.start p).steps = some (if p.isAbsolute then [] else locate w.current) := by
  unfold start
  split
  next => exact walk_steps_root p
  next => exact hw.walk_eq

/-- The names that are joined when a path is made absolute. -/
def names (p : Path) : List (List Char) :=
  Path.segments p.text.toList ++ if p.endsInSlash then [[]] else []

theorem notMem_of_mem_names {p : Path} : ∀ n ∈ names p, '/' ∉ n := by
  intro n hn
  unfold names at hn
  rcases List.mem_append.1 hn with hn | hn
  · exact Path.notMem_of_mem_segments hn
  · split at hn
    next =>
      rw [List.mem_singleton.1 hn]
      exact List.not_mem_nil
    next => nomatch hn

theorem absolute_eq (p : Path) : w.absolute p = (w.start p).below (names p) := by
  unfold names Path.below
  rw [List.foldl_append]
  show (if p.endsInSlash then _ else _) = _
  split <;> rfl

theorem isAbsolute_absolute (hw : w.Settled) (p : Path) : (w.absolute p).isAbsolute = true := by
  rw [absolute_eq, Path.isAbsolute_below _ notMem_of_mem_names, hw.isAbsolute_start]

/-- The names lead where the steps of the path lead.  If a slash is at the end, that is a directory. -/
theorem walk_names {p : Path} {l m : Location} (h : w.tree.walk l p.steps = some m) :
    w.tree.walk l (names p) = some m := by
  have hsegments := walk_segments h
  unfold names
  rw [walk_append, hsegments]
  split
  next hends =>
    obtain ⟨cs, hcs⟩ := List.getLast?_eq_some_iff.1 (beq_iff_eq.1 hends)
    rw [Path.steps, hcs, List.splitOn_append_cons_self, walk_append, Option.bind_eq_some_iff] at h
    obtain ⟨l', -, hstay⟩ := h
    show w.tree.walk m [[]] = _
    rw [List.splitOn_nil, walk_stay (Or.inl rfl)] at hstay
    rw [walk_stay (Or.inl rfl)]
    split at hstay
    next hdir =>
      cases hstay
      rw [if_pos hdir]
    next => cases hstay
  next => rfl

/-- A path that is made absolute leads where the path leads from the current directory. -/
theorem follow_absolute (hw : w.Settled) {p : Path} {l : Location}
    (h : w.tree.follow (locate w.current) p = some l) (current : Location) :
    w.tree.follow current (w.absolute p) = some l := by
  rw [follow_of_isAbsolute (isAbsolute_absolute hw p), absolute_eq,
    walk_steps_below (hw.isAbsolute_start p) notMem_of_mem_names, hw.walk_start]
  unfold follow at h
  split at h
  next => nomatch h
  next => exact walk_names h

/-! ### What is found -/

theorem resolve_eq_ok_iff {executable p : Path} : w.resolve executable = .ok p ↔
    (w.candidates executable).find? w.isFile = some p := by
  unfold resolve
  cases (w.candidates executable).find? w.isFile <;> simp

theorem resolve_eq_error_iff {executable : Path} {e : ExecutableNotFound} :
    w.resolve executable = .error e ↔
      e = ⟨executable⟩ ∧ ∀ p ∈ w.candidates executable, w.isFile p = false := by
  simp only [← Bool.not_eq_true, ← List.find?_eq_none]
  unfold resolve
  cases (w.candidates executable).find? w.isFile <;> simp [eq_comm]

theorem candidates_of_isBare {executable : Path} (h : executable.isBare = true) :
    w.candidates executable = w.searched.map (·.join executable) := by
  rw [candidates, if_pos h]

theorem candidates_of_not_isBare {executable : Path} (h : executable.isBare = false) :
    w.candidates executable = if executable.text = "" then [] else [w.absolute executable] := by
  simp only [candidates, h, Bool.false_eq_true, if_false, String.isEmpty_iff]

/-- A name is found in the first entry that has it. -/
theorem resolve_eq_ok_of_isBare {executable p : Path} (h : executable.isBare = true) :
    w.resolve executable = .ok p ↔ ∃ d, w.FirstWith executable d ∧ p = d.join executable := by
  rw [resolve_eq_ok_iff, candidates_of_isBare h, List.find?_map, Option.map_eq_some_iff]
  refine exists_congr fun d => and_congr ?_ eq_comm
  rw [List.find?_eq_some_iff_append]
  simp only [Function.comp_apply, Bool.not_eq_true', FirstWith]
  constructor
  · rintro ⟨hfile, before, after, hsearched, hbefore⟩
    exact ⟨before, after, hsearched, hfile, hbefore⟩
  · rintro ⟨before, after, hsearched, hfile, hbefore⟩
    exact ⟨hfile, before, after, hsearched, hbefore⟩

/-- Any other path is found where it is, made absolute. -/
theorem resolve_eq_ok_of_not_isBare {executable p : Path} (h : executable.isBare = false) :
    w.resolve executable = .ok p ↔
      executable.text ≠ "" ∧ p = w.absolute executable ∧ w.isFile p = true := by
  rw [resolve_eq_ok_iff, candidates_of_not_isBare h]
  split
  next hempty => simp [hempty]
  next hempty =>
    simp only [List.find?_singleton, ne_eq, hempty, not_false_eq_true, true_and]
    split
    next hfile =>
      rw [Option.some_inj, eq_comm]
      exact ⟨fun hp => ⟨hp, hp ▸ hfile⟩, fun hp => hp.1⟩
    next hfile => exact ⟨nofun, fun ⟨hp, hp'⟩ => absurd (hp ▸ hp') hfile⟩

theorem resolve_eq_error_of_isBare {executable : Path} {e : ExecutableNotFound}
    (h : executable.isBare = true) : w.resolve executable = .error e ↔
      e = ⟨executable⟩ ∧ ∀ d ∈ w.searched, w.isFile (d.join executable) = false := by
  rw [resolve_eq_error_iff, candidates_of_isBare h, List.forall_mem_map]

theorem resolve_eq_error_of_not_isBare {executable : Path} {e : ExecutableNotFound}
    (h : executable.isBare = false) : w.resolve executable = .error e ↔
      e = ⟨executable⟩ ∧ (executable.text = "" ∨ w.isFile (w.absolute executable) = false) := by
  rw [resolve_eq_error_iff, candidates_of_not_isBare h]
  by_cases hempty : executable.text = "" <;> simp [hempty]

theorem isFile_of_resolve {executable p : Path} (h : w.resolve executable = .ok p) :
    w.isFile p = true :=
  List.find?_some (resolve_eq_ok_iff.1 h)

theorem isAbsolute_join_of_isBare {executable : Path} (h : executable.isBare = true) (d : Path) :
    (d.join executable).isAbsolute = d.isAbsolute := by
  rw [Path.isBare, Bool.and_eq_true, Bool.not_eq_true'] at h
  exact Path.isAbsolute_join d h.1

/-- What is found for a name, for any other path, and what it denotes.  A name is found in the first
entry of the search path that has a file of it, and what was found is absolute exactly if that entry
is.  Any other path is made absolute, and it leads where it led before.  Nothing is found exactly if
there is no such file.  What was found is a file; if it is absolute, it is that file from everywhere. -/
theorem resolve_denotes (w : Surroundings) (hw : w.Settled) (executable : Path) :
    (executable.isBare = true →
      (∀ p, w.resolve executable = .ok p ↔ ∃ d, w.FirstWith executable d ∧ p = d.join executable) ∧
      (∀ d : Path, (d.join executable).isAbsolute = d.isAbsolute) ∧
      ∀ e, w.resolve executable = .error e ↔
        e = ⟨executable⟩ ∧ ∀ d ∈ w.searched, w.isFile (d.join executable) = false) ∧
    (executable.isBare = false →
      (∀ p, w.resolve executable = .ok p ↔
        executable.text ≠ "" ∧ p = w.absolute executable ∧ w.isFile p = true) ∧
      (w.absolute executable).isAbsolute = true ∧
      (∀ l, w.tree.follow (locate w.current) executable = some l →
        ∀ current, w.tree.follow current (w.absolute executable) = some l) ∧
      ∀ e, w.resolve executable = .error e ↔
        e = ⟨executable⟩ ∧ (executable.text = "" ∨ w.isFile (w.absolute executable) = false)) ∧
    ∀ p, w.resolve executable = .ok p → w.isFile p = true ∧
      (p.isAbsolute = true → ∀ current,
        w.tree.follow current p = w.tree.follow (locate w.current) p) := by
  refine ⟨fun h => ?_, fun h => ?_, fun p hp => ⟨isFile_of_resolve hp, fun habsolute current => ?_⟩⟩
  · exact ⟨fun p => resolve_eq_ok_of_isBare h, isAbsolute_join_of_isBare h,
      fun e => resolve_eq_error_of_isBare h⟩
  · exact ⟨fun p => resolve_eq_ok_of_not_isBare h, isAbsolute_absolute hw executable,
      fun l hl => follow_absolute hw hl, fun e => resolve_eq_error_of_not_isBare h⟩
  · rw [follow_of_isAbsolute habsolute, follow_of_isAbsolute habsolute]

/-- Two projects with an interpreter each. -/
def projects : FileTree :=
  ((∅ : FileTree).addFile ["a".toList, "bin".toList, "python".toList]).addFile
    ["b".toList, "bin".toList, "python".toList]

/-- The directory of the first project, with a relative entry in front of the search path. -/
def inProject : Surroundings := ⟨projects, ⟨"/a"⟩, some "bin:/b/bin"⟩

theorem settled_inProject : inProject.Settled :=
  ⟨by decide, by decide +kernel⟩

/-- A path to the interpreter of the project, from everywhere. -/
theorem resolve_denotes_inProject : inProject.Settled ∧
    inProject.resolve ⟨"./bin//python"⟩ = .ok ⟨"/a/bin/python"⟩ ∧
      ∀ current, projects.follow current ⟨"/a/bin/python"⟩ =
        some ["a".toList, "bin".toList, "python".toList] := by
  have hpath := (resolve_denotes inProject settled_inProject ⟨"./bin//python"⟩).2.1 (by decide +kernel)
  have habsolute : inProject.absolute ⟨"./bin//python"⟩ = ⟨"/a/bin/python"⟩ := by decide +kernel
  rw [habsolute] at hpath
  refine ⟨settled_inProject, ?_, hpath.2.2.1 _ (by decide +kernel)⟩
  exact (hpath.1 _).2 ⟨by decide, rfl, by decide +kernel⟩

/-- A name that is found through a relative entry denotes another interpreter in another directory. -/
theorem resolve_relative : inProject.resolve ⟨"python"⟩ = .ok ⟨"bin/python"⟩ ∧
    Path.isAbsolute ⟨"bin/python"⟩ = false ∧
    projects.follow (locate ⟨"/a"⟩) ⟨"bin/python"⟩ ≠
      projects.follow (locate ⟨"/b"⟩) ⟨"bin/python"⟩ := by
  refine ⟨?_, by decide, by decide +kernel⟩
  rw [resolve_eq_ok_iff]
  decide +kernel

/-- What is found is neither always absolute nor the same file from everywhere. -/
theorem not_resolve_absolute :
    (¬∀ (w : Surroundings) (executable p : Path), w.Settled → w.resolve executable = .ok p →
      p.isAbsolute = true) ∧
    ¬∀ (w : Surroundings) (executable p : Path), w.Settled → w.resolve executable = .ok p →
      ∀ current, w.tree.follow current p = w.tree.follow (locate w.current) p := by
  obtain ⟨hresolve, hrelative, hother⟩ := resolve_relative
  constructor
  · intro h
    rw [h inProject _ _ settled_inProject hresolve] at hrelative
    nomatch hrelative
  · intro h
    exact hother (h inProject _ _ settled_inProject hresolve _).symm

end Surroundings

end Requisite
