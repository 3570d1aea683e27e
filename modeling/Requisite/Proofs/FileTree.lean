import Requisite.FileTree
import Requisite.Proofs.Text.Pieces

/-!
# Following paths

A path is followed step by step, so that a path in two parts is followed along the one and then along
the other.  Steps that stay in a directory can be left out, and a path that starts at the root leads to
the same place from everywhere.

* `Path.steps` — the steps of a path;
* `FileTree.walk_append` — two lists of steps, one after the other;
* `FileTree.walk_segments` — the steps of a path without those that stay in a directory;
* `FileTree.walk_steps_join` — the steps of a path with a name joined to it;
* `FileTree.follow_of_isAbsolute` — the current directory does not matter to an absolute path.
-/

namespace Requisite

open Text

namespace Path

/-- The steps of a path: the texts between its slashes. -/
def steps (p : Path) : List (List Char) :=
  p.text.toList.splitOn '/'

/-- The text of a path that a relative one is joined to. -/
theorem toList_join (p : Path) {q : Path} (hq : q.isAbsolute = false) :
    (p.join q).text.toList =
      if p.text.toList = [] ∨ p.text.toList.getLast? = some '/' then p.text.toList ++ q.text.toList
      else p.text.toList ++ '/' :: q.text.toList := by
  unfold join
  rw [if_neg (by simp [hq])]
  simp only [String.isEmpty_iff, Bool.or_eq_true, beq_iff_eq, ← String.toList_eq_nil_iff]
  split <;> simp

/-- A relative path is joined to another one without a change of where that starts. -/
theorem isAbsolute_join (p : Path) {q : Path} (hq : q.isAbsolute = false) :
    (p.join q).isAbsolute = p.isAbsolute := by
  unfold isAbsolute at hq ⊢
  rw [toList_join p hq]
  cases p.text.toList with
  | nil => simpa using hq
  | cons c cs => split <;> rfl

theorem isAbsolute_of_notMem {cs : List Char} (h : '/' ∉ cs) :
    isAbsolute ⟨String.ofList cs⟩ = false := by
  rw [isAbsolute, String.toList_ofList, beq_eq_false_iff_ne]
  intro hhead
  exact h (List.mem_of_head? hhead)

theorem ne_nil_of_isAbsolute {p : Path} (h : p.isAbsolute = true) : p.text.toList ≠ [] := by
  intro hnil
  rw [isAbsolute, hnil] at h
  nomatch h

/-- No segment has a slash. -/
theorem notMem_of_mem_segments {cs s : List Char} (h : s ∈ segments cs) : '/' ∉ s :=
  notMem_of_mem_splitOn (List.mem_of_mem_filter h)

end Path

namespace FileTree

variable {t : FileTree} {l m : Location}

theorem walk_cons (step : List Char) (steps : List (List Char)) :
    t.walk l (step :: steps) = (t.walk l [step]).bind fun m => t.walk m steps := by
  simp only [walk]
  split
  next => rfl
  next =>
    split
    next => rfl
    next =>
      split
      next => rfl
      next => split <;> rfl

/-- Two lists of steps, one after the other. -/
theorem walk_append (xs ys : List (List Char)) :
    t.walk l (xs ++ ys) = (t.walk l xs).bind fun m => t.walk m ys := by
  induction xs generalizing l with
  | nil => rfl
  | cons x xs ih =>
    rw [List.cons_append, walk_cons x (xs ++ ys), walk_cons x xs, Option.bind_assoc]
    exact congrArg _ (funext fun m => ih)

/-- A step that stays in a directory. -/
theorem walk_stay {step : List Char} (h : step = [] ∨ step = ['.']) :
    t.walk l [step] = if t.hasDirectory l then some l else none := by
  cases hdir : t.hasDirectory l <;> simp [walk, hdir, h]

/-- An empty step before another one makes no difference. -/
theorem walk_nil_cons (step : List Char) (steps : List (List Char)) :
    t.walk l ([] :: step :: steps) = t.walk l (step :: steps) := by
  rw [walk_cons, walk_stay (Or.inl rfl)]
  split
  next => rfl
  next hdir => simp [walk, hdir]

/-- The steps that stay in a directory can be left out. -/
theorem walk_segments {cs : List Char} (h : t.walk l (cs.splitOn '/') = some m) :
    t.walk l (Path.segments cs) = some m := by
  unfold Path.segments
  generalize cs.splitOn '/' = steps at h
  induction steps generalizing l with
  | nil => exact h
  | cons step steps ih =>
    rw [walk_cons, Option.bind_eq_some_iff] at h
    obtain ⟨l', hstep, hmore⟩ := h
    by_cases hstay : step = [] ∨ step = ['.']
    · rw [walk_stay hstay] at hstep
      split at hstep
      next =>
        cases hstep
        rw [List.filter_cons_of_neg]
        · exact ih hmore
        · rcases hstay with rfl | rfl <;> simp
      next => nomatch hstep
    · rw [List.filter_cons_of_pos, walk_cons, hstep]
      · exact ih hmore
      · rw [not_or] at hstay
        simpa using hstay

/-- A name that is joined to a path leads where it leads from the end of the path. -/
theorem walk_steps_join {p : Path} (hp : p.isAbsolute = true) {name : List Char} (hname : '/' ∉ name) :
    t.walk l (p.join ⟨String.ofList name⟩).steps =
      (t.walk l p.steps).bind fun m => t.walk m [name] := by
  rw [← walk_append, Path.steps, Path.steps, Path.toList_join p (Path.isAbsolute_of_notMem hname),
    String.toList_ofList]
  split
  next hends =>
    -- The path ends in an empty step, in the place of which the name stands.
    obtain ⟨cs, hcs⟩ := List.getLast?_eq_some_iff.1 (hends.resolve_left (Path.ne_nil_of_isAbsolute hp))
    rw [hcs, List.append_assoc, List.singleton_append, List.splitOn_append_cons_self,
      List.splitOn_append_cons_self, splitOn_of_notMem hname, List.append_assoc, walk_append,
      walk_append]
    exact congrArg _ (funext fun m => (walk_nil_cons name []).symm)
  next =>
    rw [List.splitOn_append_cons_self, splitOn_of_notMem hname]

/-- The current directory does not matter to an absolute path. -/
theorem follow_of_isAbsolute {p : Path} (h : p.isAbsolute = true) (current : Location) :
    t.follow current p = t.walk [] p.steps := by
  have hne : p.text.isEmpty = false := by
    rw [String.isEmpty_eq_false_iff, ne_eq, ← String.toList_eq_nil_iff]
    exact Path.ne_nil_of_isAbsolute h
  rw [follow, hne, if_neg Bool.false_ne_true, if_pos h]
  rfl

end FileTree

end Requisite
