import Mathlib
import Requisite.Proofs.Keys
import Requisite.Interpreter.Distributions

/-!
# Sessions with an interpreter

An interpreter is asked for distributions again and again, and what it has answered is kept.  A
session has, for each call, the processes that were started and what came of it, so that a call can
be compared with the answers to those before it.

* `Runner.recorded` — the same runner with a record of its runs;
* `Interpreter.session` — some calls, one after the other;
* `Exchange.Settles` — what a call does, seen from the answers given before;
* `Interpreter.Mirrors` — the findings that are kept are those answers;
* `Interpreter.exchange_cases` — a call fails and changes nothing, or adds the entries of an answer;
* **`Interpreter.exchange_settles`** — one call, from findings that mirror the answers;
* **`Interpreter.session_asks_once`** — all calls, from no findings.
-/

namespace Requisite

open Std

/-! ### Runs and answers -/

/-- A process that was started, or that could not be started. -/
structure Run where
  program : Path
  call : Call
  outcome : Outcome
  deriving DecidableEq

/-- The entries of an answer, each with the name at its place in the question.  There is no answer
if the exit code is not zero, or if the output is no list of as many entries as names. -/
def Run.answer? (r : Run) : Option (List (String × Option Distribution)) :=
  match r.call, r.outcome with
  | .distributions names, .finished (some 0) stdout _ =>
    match Distribution.listOf? stdout with
    | some entries => if entries.length = names.length then some (names.zip entries) else none
    | none => none
  | _, _ => none

/-- A run has an answer if its output is understood as one. -/
theorem Run.answer?_finished (program : Path) (names : List String) (stdout stderr : String) :
    Run.answer? ⟨program, .distributions names, .finished (some 0) stdout stderr⟩ =
      (Interpreter.answerOf program names stdout).toOption.map names.zip := by
  show (match Distribution.listOf? stdout with
    | some entries => if entries.length = names.length then some (names.zip entries) else none
    | none => none) = _
  rw [Interpreter.answerOf]
  cases Distribution.listOf? stdout with
  | none => rfl
  | some entries =>
    dsimp only
    split <;> rfl

theorem Interpreter.length_of_answerOf {program : Path} {names : List String} {stdout : String}
    {entries : List (Option Distribution)} (h : answerOf program names stdout = .ok entries) :
    entries.length = names.length := by
  unfold answerOf at h
  split at h
  next => nomatch h
  next =>
    split at h
    next hlength => exact Except.ok.inj h ▸ hlength
    next => nomatch h

/-- The entries that some runs were answered with. -/
def Run.entries (runs : List Run) : List (String × Option Distribution) :=
  runs.flatMap fun r => r.answer?.getD []

section Recorded

variable {ω : Type}

/-- The runner with a record of its runs. -/
def Runner.recorded (run : Runner ω) : Runner (ω × List Run) := fun program call (s, runs) =>
  match run program call s with
  | (outcome, s) => (outcome, s, runs ++ [⟨program, call, outcome⟩])

theorem Runner.output_recorded (run : Runner ω) (program : Path) (call : Call) (s : ω)
    (runs : List Run) : run.recorded.output program call (s, runs) =
      ((run.output program call s).1, (run.output program call s).2,
        runs ++ [⟨program, call, (run program call s).1⟩]) := by
  unfold output recorded
  dsimp only
  cases run program call s with
  | mk outcome s' =>
    cases outcome with
    | notStarted => rfl
    | finished code stdout stderr =>
      dsimp only
      split <;> rfl

end Recorded

/-- A call for the distributions of some names. -/
structure Exchange where
  names : List String
  /-- The runs of the interpreter. -/
  runs : List Run
  answer : Except ProcessError Findings
  /-- What is known afterwards. -/
  known : Findings

namespace Exchange

/-- The entries that the interpreter has answered with. -/
def learnt (exchanges : List Exchange) : List (String × Option Distribution) :=
  exchanges.flatMap fun e => Run.entries e.runs

/-- What is known after some calls. -/
def kept (exchanges : List Exchange) : Findings :=
  (exchanges.getLast?.map known).getD ∅

/-- The first entry for a name, whatever its spelling. -/
def firstEntry (learnt : List (String × Option Distribution)) (key : String) :
    Option (Option Distribution) :=
  (learnt.find? fun p => Name.canonical p.1 == key).map Prod.snd

/-- The names without an entry, the first spelling of each. -/
def unasked (learnt : List (String × Option Distribution)) (names : List String) : List String :=
  (names.filter fun name => (firstEntry learnt (Name.canonical name)).isNone).eraseDupsBy fun a b =>
    Name.canonical a == Name.canonical b

/-- What a call does, those before it being `earlier`. -/
structure Settles (program : Path) (earlier : List Exchange) (e : Exchange) : Prop where
  /-- The interpreter is run once, for the first spellings of the names that it has given no entry
  for; if there are none, it is not run. -/
  asks : e.runs.map (fun r => (r.program, r.call)) =
    if unasked (learnt earlier) e.names = [] then []
    else [(program, .distributions (unasked (learnt earlier) e.names))]
  /-- The call succeeds without a run, and otherwise if the run has an answer. -/
  succeeds : (∃ found, e.answer = .ok found) ↔ ∀ r ∈ e.runs, r.answer?.isSome = true
  /-- The findings are on the names as they were spelled, and are the first entries for them. -/
  finds : ∀ found, e.answer = .ok found → (∀ name, name ∈ found ↔ name ∈ e.names) ∧
    ∀ name ∈ e.names, ∃ entry,
      firstEntry (learnt (earlier ++ [e])) (Name.canonical name) = some entry ∧
        found[name]? = some entry
  /-- All entries are kept, and nothing else. -/
  keeps : ∀ key, e.known[key]? = firstEntry (learnt (earlier ++ [e])) key
  /-- Nothing is learnt from a call that fails. -/
  forgets : ∀ err, e.answer = .error err →
    learnt (earlier ++ [e]) = learnt earlier ∧ e.known = kept earlier

theorem learnt_append_singleton (exchanges : List Exchange) (e : Exchange) :
    learnt (exchanges ++ [e]) = learnt exchanges ++ Run.entries e.runs := by
  rw [learnt, List.flatMap_append, List.flatMap_singleton]
  rfl

theorem kept_append_singleton (exchanges : List Exchange) (e : Exchange) :
    kept (exchanges ++ [e]) = e.known := by
  rw [kept, List.getLast?_concat]
  rfl

theorem isSome_firstEntry_iff {learnt : List (String × Option Distribution)} {key : String} :
    (firstEntry learnt key).isSome = true ↔ key ∈ learnt.map fun p => Name.canonical p.1 := by
  rw [firstEntry, Option.isSome_map, List.find?_isSome, List.mem_map]
  simp only [beq_iff_eq]

theorem firstEntry_append (learnt learnt' : List (String × Option Distribution)) (key : String) :
    firstEntry (learnt ++ learnt') key = (firstEntry learnt key).or (firstEntry learnt' key) := by
  rw [firstEntry, List.find?_append, Option.map_or]
  rfl

end Exchange

namespace Interpreter

variable {ω : Type}

/-- A call for the distributions of some names. -/
def exchange (run : Runner ω) (i : Interpreter) (names : List String) (known : Findings) (s : ω) :
    Exchange where
  names
  runs := (i.distributions run.recorded names known (s, [])).2.2.2
  answer := (i.distributions run names known s).1
  known := (i.distributions run names known s).2.1

/-- Some calls for distributions, one after the other. -/
def session (run : Runner ω) (i : Interpreter) :
    List (List String) → Findings → ω → List Exchange
  | [], _, _ => []
  | names :: calls, known, s =>
    let after := (i.distributions run names known s).2
    i.exchange run names known s :: session run i calls after.1 after.2

/-! ### Names that are asked for -/

/-- Every name is asked for under its first spelling, unless something is known of it. -/
theorem unknown_eq (known : Findings) (names : List String) : unknown known names =
    (names.filter fun name => !known.contains (Name.canonical name)).eraseDupsBy fun a b =>
      Name.canonical a == Name.canonical b := by
  induction names generalizing known with
  | nil => rfl
  | cons name names ih =>
    rw [unknown]
    cases hknown : known.contains (Name.canonical name) with
    | true =>
      rw [if_pos rfl, ih, List.filter_cons_of_neg]
      simp [hknown]
    | false =>
      rw [if_neg Bool.false_ne_true, ih, List.filter_cons_of_pos (by simp [hknown]),
        List.eraseDupsBy_cons, List.filter_filter]
      congr 2
      apply List.filter_congr
      intro name' _
      have hkey : (compare (Name.canonical name) (Name.canonical name') == .eq) =
          (Name.canonical name' == Name.canonical name) := by
        rw [Bool.eq_iff_iff, beq_iff_eq, beq_iff_eq, Std.compare_eq_iff_eq, eq_comm]
      rw [ExtTreeMap.contains_insert, hkey, Bool.not_or, Bool.decide_eq_false]

/-- No canonical name is asked for twice, and none of which something is known. -/
theorem nodup_unknown (known : Findings) (names : List String) :
    ((unknown known names).map Name.canonical).Nodup ∧
      ∀ name ∈ unknown known names, Name.canonical name ∉ known := by
  induction names generalizing known with
  | nil => exact ⟨.nil, nofun⟩
  | cons name names ih =>
    rw [unknown]
    cases hknown : known.contains (Name.canonical name) with
    | true => exact ih known
    | false =>
      obtain ⟨hnodup, hnew⟩ := ih (known.insert (Name.canonical name) none)
      simp only [KeyMap.mem_insert_iff, not_or] at hnew
      rw [if_neg Bool.false_ne_true, List.map_cons, List.nodup_cons, List.forall_mem_cons]
      refine ⟨⟨fun hmem => ?_, hnodup⟩, ?_, fun name' h => (hnew name' h).2⟩
      · obtain ⟨name', hname', heq⟩ := List.mem_map.1 hmem
        exact (hnew name' hname').1 heq
      · exact Bool.eq_false_iff.1 hknown

/-- Something is known of every name, or it is asked for under one of its spellings. -/
theorem mem_or_mem_unknown (known : Findings) {names : List String} {name : String}
    (h : name ∈ names) : Name.canonical name ∈ known ∨
      Name.canonical name ∈ (unknown known names).map Name.canonical := by
  induction names generalizing known with
  | nil => nomatch h
  | cons first names ih =>
    rw [unknown]
    cases hknown : known.contains (Name.canonical first) with
    | true =>
      rcases List.mem_cons.1 h with rfl | h
      · exact Or.inl hknown
      · exact ih known h
    | false =>
      rw [if_neg Bool.false_ne_true, List.map_cons, List.mem_cons]
      rcases List.mem_cons.1 h with rfl | h
      · exact Or.inr (Or.inl rfl)
      · have hrest := ih (known.insert (Name.canonical first) none) h
        rwa [KeyMap.mem_insert_iff, or_assoc, or_left_comm] at hrest

/-! ### Findings and entries -/

/-- The findings are the entries of some answers, none of which is for a name with another one. -/
structure Mirrors (known : Findings) (learnt : List (String × Option Distribution)) : Prop where
  nodup : (learnt.map fun p => Name.canonical p.1).Nodup
  getElem? : ∀ key, known[key]? = Exchange.firstEntry learnt key

namespace Mirrors

variable {known : Findings} {learnt : List (String × Option Distribution)}

theorem empty : Mirrors ∅ [] where
  nodup := .nil
  getElem? _ := ExtTreeMap.getElem?_empty

theorem contains_eq (h : Mirrors known learnt) (key : String) :
    known.contains key = (Exchange.firstEntry learnt key).isSome := by
  rw [← h.getElem?]
  exact ExtTreeMap.contains_eq_isSome_getElem?

theorem mem_iff (h : Mirrors known learnt) {key : String} :
    key ∈ known ↔ key ∈ learnt.map fun p => Name.canonical p.1 := by
  rw [← Exchange.isSome_firstEntry_iff, ← h.contains_eq]
  rfl

/-- The names that are asked for are those without an entry. -/
theorem unknown_eq_unasked (h : Mirrors known learnt) (names : List String) :
    unknown known names = Exchange.unasked learnt names := by
  rw [unknown_eq, Exchange.unasked]
  congr 1
  apply List.filter_congr
  intro name _
  rw [h.contains_eq, Option.not_isSome]

theorem insert (h : Mirrors known learnt) {p : String × Option Distribution}
    (hnew : Name.canonical p.1 ∉ known) :
    Mirrors (known.insert (Name.canonical p.1) p.2) (learnt ++ [p]) := by
  constructor
  case nodup =>
    rw [List.map_append, List.nodup_append]
    refine ⟨h.nodup, List.pairwise_singleton .., ?_⟩
    intro key hkey key' hkey' heq
    rw [List.map_singleton, List.mem_singleton] at hkey'
    rw [heq, hkey'] at hkey
    exact hnew (h.mem_iff.2 hkey)
  case getElem? =>
    intro key
    rw [Exchange.firstEntry_append, ← h.getElem?]
    by_cases hkey : key = Name.canonical p.1
    · rw [hkey, ExtTreeMap.getElem?_insert_self, KeyMap.getElem?_eq_none_iff.2 hnew]
      simp [Exchange.firstEntry]
    · rw [KeyMap.getElem?_insert_of_ne hkey]
      have hother : Exchange.firstEntry [p] key = none := by
        simp [Exchange.firstEntry, Ne.symm hkey]
      rw [hother, Option.or_none]

theorem foldl_insert (h : Mirrors known learnt) {new : List (String × Option Distribution)}
    (hnodup : (new.map fun p => Name.canonical p.1).Nodup)
    (hnew : ∀ p ∈ new, Name.canonical p.1 ∉ known) :
    Mirrors (new.foldl (fun known p => known.insert (Name.canonical p.1) p.2) known)
      (learnt ++ new) := by
  induction new generalizing known learnt with
  | nil =>
    rw [List.append_nil]
    exact h
  | cons p new ih =>
    obtain ⟨hp, hnew⟩ := List.forall_mem_cons.1 hnew
    rw [List.map_cons, List.nodup_cons] at hnodup
    obtain ⟨hother, hnodup⟩ := hnodup
    rw [List.append_cons]
    refine ih (h.insert hp) hnodup fun p' hp' => ?_
    rw [KeyMap.mem_insert_iff, not_or]
    refine ⟨fun heq => hother ?_, hnew p' hp'⟩
    rw [← heq]
    exact List.mem_map_of_mem hp'

end Mirrors

/-- The findings are given under the names that were asked for. -/
theorem getElem?_spelled (known : Findings) (names : List String) (name : String) :
    (spelled known names)[name]? =
      if name ∈ names then some (known[Name.canonical name]?).join else none := by
  have hfold : ∀ found : Findings, (names.foldl (fun found name =>
      found.insert name (known[Name.canonical name]?).join) found)[name]? =
      if name ∈ names then some (known[Name.canonical name]?).join else found[name]? := by
    induction names with
    | nil => exact fun found => (if_neg List.not_mem_nil).symm
    | cons first names ih =>
      intro found
      rw [List.foldl_cons, ih]
      by_cases hfirst : name = first
      · rw [hfirst, ExtTreeMap.getElem?_insert_self, if_pos List.mem_cons_self, ite_self]
      · rw [KeyMap.getElem?_insert_of_ne hfirst]
        simp only [List.mem_cons, hfirst, false_or]
  rw [spelled, hfold, ExtTreeMap.getElem?_empty]

/-! ### One call -/

/-- The run that asks for some names. -/
def asking (run : Runner ω) (i : Interpreter) (names : List String) (s : ω) : Run :=
  ⟨i.executable, .distributions names, (run i.executable (.distributions names) s).1⟩

/-- The runs of a call, one if a name has to be asked for. -/
def runs (run : Runner ω) (i : Interpreter) (names : List String) (known : Findings) (s : ω) :
    List Run :=
  if unknown known names = [] then [] else [i.asking run (unknown known names) s]

section Call

variable (run : Runner ω) (i : Interpreter) (names : List String) (known : Findings) (s : ω)

theorem lookUp_recorded (log : List Run) : i.lookUp run.recorded names known (s, log) =
    ((i.lookUp run names known s).1, (i.lookUp run names known s).2,
      log ++ i.runs run names known s) := by
  unfold lookUp runs
  cases unknown known names with
  | nil =>
    rw [if_pos rfl, List.append_nil]
  | cons name rest =>
    rw [if_neg (List.cons_ne_nil name rest)]
    dsimp only
    rw [run.output_recorded]
    cases run.output i.executable (.distributions (name :: rest)) s with
    | mk r s' => cases r <;> rfl

/-- The record changes nothing else. -/
theorem distributions_recorded (log : List Run) :
    i.distributions run.recorded names known (s, log) =
      ((i.distributions run names known s).1, (i.distributions run names known s).2.1,
        (i.distributions run names known s).2.2, log ++ i.runs run names known s) := by
  rw [distributions, lookUp_recorded, distributions]
  cases i.lookUp run names known s with
  | mk r s' => cases r <;> rfl

/-- A look-up fails if its run has no answer, and keeps the entries of its answer otherwise. -/
theorem lookUp_cases :
    (∃ e, Run.entries (i.runs run names known s) = [] ∧
      ¬(∀ r ∈ i.runs run names known s, r.answer?.isSome = true) ∧
        (i.lookUp run names known s).1 = .error e) ∨
    ∃ new, Run.entries (i.runs run names known s) = new ∧
      new.map Prod.fst = unknown known names ∧
        (∀ r ∈ i.runs run names known s, r.answer?.isSome = true) ∧
          (i.lookUp run names known s).1 =
            .ok (new.foldl (fun known p => known.insert (Name.canonical p.1) p.2) known) := by
  unfold lookUp runs Run.entries
  cases unknown known names with
  | nil => exact Or.inr ⟨[], rfl, rfl, nofun, rfl⟩
  | cons name rest =>
    rw [if_neg (List.cons_ne_nil name rest), List.flatMap_singleton, List.forall_mem_singleton]
    unfold asking Runner.output
    dsimp only
    cases run i.executable (.distributions (name :: rest)) s with
    | mk outcome s' =>
      match outcome with
      | .notStarted | .finished none _ _ | .finished (some (_ + 1)) _ _ =>
        exact Or.inl ⟨_, rfl, Bool.false_ne_true, rfl⟩
      | .finished (some 0) stdout stderr =>
        dsimp only
        rw [if_pos rfl, Run.answer?_finished]
        dsimp only
        cases hanswer : answerOf i.executable (name :: rest) stdout with
        | error e => exact Or.inl ⟨e, rfl, Bool.false_ne_true, rfl⟩
        | ok entries =>
          have hlength := length_of_answerOf hanswer
          exact Or.inr ⟨_, rfl, List.map_fst_zip (Nat.le_of_eq hlength.symm), rfl, rfl⟩

/-- A call answers from the findings of its look-up, and fails where the look-up does. -/
theorem distributions_eq : ∃ s', i.distributions run names known s =
    match (i.lookUp run names known s).1 with
    | .error e => (.error e, known, s')
    | .ok found => (.ok (spelled found names), found, s') := by
  rw [distributions]
  cases i.lookUp run names known s with
  | mk r s' =>
    refine ⟨s', ?_⟩
    cases r <;> rfl

end Call

variable {names : List String} {known : Findings} {earlier : List Exchange}

/-- The findings of a call that succeeds. -/
theorem finds_of_mirrors {learnt : List (String × Option Distribution)}
    (h : Mirrors known learnt) (hknown : ∀ name ∈ names, Name.canonical name ∈ known) :
    (∀ name, name ∈ spelled known names ↔ name ∈ names) ∧
      ∀ name ∈ names, ∃ entry, Exchange.firstEntry learnt (Name.canonical name) = some entry ∧
        (spelled known names)[name]? = some entry := by
  constructor
  · intro name
    rw [ExtTreeMap.mem_iff_isSome_getElem?, getElem?_spelled]
    split
    next hname => exact iff_of_true rfl hname
    next hname => exact iff_of_false Bool.false_ne_true hname
  · intro name hname
    obtain ⟨entry, hentry⟩ :=
      Option.isSome_iff_exists.1 (ExtTreeMap.mem_iff_isSome_getElem?.1 (hknown name hname))
    refine ⟨entry, (h.getElem? _).symm.trans hentry, ?_⟩
    rw [getElem?_spelled, if_pos hname, hentry, Option.join_some]

theorem runs_exchange (run : Runner ω) (i : Interpreter) (names : List String) (known : Findings)
    (s : ω) : (i.exchange run names known s).runs = i.runs run names known s := by
  rw [exchange, distributions_recorded, List.nil_append]

/-- What a call does: without an answer to its run it fails and keeps what is known; otherwise it
adds the entries of the answer, and answers from what is known then. -/
theorem exchange_cases (run : Runner ω) (i : Interpreter) (names : List String) (known : Findings)
    (s : ω) :
    (∃ err, (i.exchange run names known s).answer = .error err ∧
      (i.exchange run names known s).known = known ∧
        Run.entries (i.exchange run names known s).runs = [] ∧
          ¬(∀ r ∈ (i.exchange run names known s).runs, r.answer?.isSome = true)) ∨
    ∃ new, (i.exchange run names known s).answer =
        .ok (spelled (i.exchange run names known s).known names) ∧
      (i.exchange run names known s).known =
        new.foldl (fun known p => known.insert (Name.canonical p.1) p.2) known ∧
        Run.entries (i.exchange run names known s).runs = new ∧
          (∀ r ∈ (i.exchange run names known s).runs, r.answer?.isSome = true) ∧
            new.map Prod.fst = unknown known names := by
  rw [runs_exchange]
  obtain ⟨s', hdistributions⟩ := distributions_eq run i names known s
  rcases lookUp_cases run i names known s with
    ⟨e, hentries, hanswer, hlookUp⟩ | ⟨new, hentries, hnames, hanswer, hlookUp⟩
  · rw [hlookUp] at hdistributions
    exact Or.inl ⟨e, congrArg Prod.fst hdistributions, congrArg (fun x => x.2.1) hdistributions,
      hentries, hanswer⟩
  · rw [hlookUp] at hdistributions
    have hknown : (i.exchange run names known s).known =
        new.foldl (fun known p => known.insert (Name.canonical p.1) p.2) known :=
      congrArg (fun x => x.2.1) hdistributions
    refine Or.inr ⟨new, ?_, hknown, hentries, hanswer, hnames⟩
    rw [hknown]
    exact congrArg Prod.fst hdistributions

/-- The run of a call asks for the names without an entry. -/
theorem asks_of_mirrors {learnt : List (String × Option Distribution)} (h : Mirrors known learnt)
    (run : Runner ω) (i : Interpreter) (names : List String) (s : ω) :
    (i.exchange run names known s).runs.map (fun r => (r.program, r.call)) =
      if Exchange.unasked learnt names = [] then []
      else [(i.executable, .distributions (Exchange.unasked learnt names))] := by
  rw [runs_exchange, ← h.unknown_eq_unasked, runs]
  split <;> rfl

/-- The entries for the names that were not known are mirrored too, and then all names are known. -/
theorem Mirrors.learns {learnt new : List (String × Option Distribution)}
    (h : Mirrors known learnt) (hnew : new.map Prod.fst = unknown known names) :
    Mirrors (new.foldl (fun known p => known.insert (Name.canonical p.1) p.2) known)
        (learnt ++ new) ∧
      ∀ name ∈ names, Name.canonical name ∈
        new.foldl (fun known p => known.insert (Name.canonical p.1) p.2) known := by
  obtain ⟨hnodup, hunknown⟩ := nodup_unknown known names
  rw [← hnew] at hnodup hunknown
  have hmirrors : Mirrors (new.foldl (fun known p => known.insert (Name.canonical p.1) p.2) known)
      (learnt ++ new) := by
    refine h.foldl_insert ?_ fun p hp => hunknown p.1 (List.mem_map_of_mem hp)
    rw [List.map_map] at hnodup
    exact hnodup
  refine ⟨hmirrors, fun name hname => ?_⟩
  have hcover := mem_or_mem_unknown known hname
  rw [← hnew, List.map_map] at hcover
  rw [hmirrors.mem_iff, List.map_append, List.mem_append, ← h.mem_iff]
  exact hcover

/-- From findings that are the answers given before, a call does what it should, and leaves findings
that are the answers given then. -/
theorem exchange_settles (run : Runner ω) (i : Interpreter) (names : List String) (s : ω)
    (hmirrors : Mirrors known (Exchange.learnt earlier)) (hkept : known = Exchange.kept earlier) :
    (i.exchange run names known s).Settles i.executable earlier ∧
      Mirrors (i.exchange run names known s).known
        (Exchange.learnt (earlier ++ [i.exchange run names known s])) := by
  have hasks := asks_of_mirrors hmirrors run i names s
  have hlearnt := Exchange.learnt_append_singleton earlier (i.exchange run names known s)
  rcases exchange_cases run i names known s with
    ⟨err, hfails, hknown, hentries, hanswer⟩ | ⟨new, hfinds, hknown, hentries, hanswer, hnew⟩
  · rw [hentries, List.append_nil] at hlearnt
    have hmirrors' : Mirrors (i.exchange run names known s).known
        (Exchange.learnt (earlier ++ [i.exchange run names known s])) := by
      rw [hlearnt, hknown]
      exact hmirrors
    refine ⟨⟨hasks, iff_of_false ?_ hanswer, ?_, hmirrors'.getElem?, ?_⟩, hmirrors'⟩
    · rintro ⟨found, hfound⟩
      nomatch hfails.symm.trans hfound
    · intro found hfound
      nomatch hfails.symm.trans hfound
    · intro err' _
      exact ⟨hlearnt, hknown.trans hkept⟩
  · obtain ⟨hmirrors', hcover⟩ := hmirrors.learns hnew
    rw [hentries] at hlearnt
    rw [← hknown, ← hlearnt] at hmirrors'
    rw [← hknown] at hcover
    refine ⟨⟨hasks, iff_of_true ⟨_, hfinds⟩ hanswer, ?_, hmirrors'.getElem?, ?_⟩, hmirrors'⟩
    · intro found hfound
      obtain rfl := Except.ok.inj (hfinds.symm.trans hfound)
      exact finds_of_mirrors hmirrors' hcover
    · intro err herr
      nomatch hfinds.symm.trans herr

/-! ### All calls -/

/-- From findings that are the answers given before, every call does what it should. -/
theorem session_settles (run : Runner ω) (i : Interpreter) (calls : List (List String)) (s : ω)
    (hmirrors : Mirrors known (Exchange.learnt earlier)) (hkept : known = Exchange.kept earlier) :
    ((Exchange.learnt (earlier ++ i.session run calls known s)).map
        fun p => Name.canonical p.1).Nodup ∧
      ∀ before e after, i.session run calls known s = before ++ e :: after →
        e.Settles i.executable (earlier ++ before) := by
  induction calls generalizing earlier known s with
  | nil =>
    rw [session, List.append_nil]
    refine ⟨hmirrors.nodup, fun before e after h => ?_⟩
    nomatch List.append_eq_nil_iff.1 h.symm
  | cons names calls ih =>
    obtain ⟨hsettles, hmirrors'⟩ := exchange_settles run i names s hmirrors hkept
    obtain ⟨hnodup, hrest⟩ := ih (i.distributions run names known s).2.2 hmirrors'
      (Exchange.kept_append_singleton ..).symm
    rw [session, List.append_cons]
    refine ⟨hnodup, fun before e after h => ?_⟩
    cases before with
    | nil =>
      obtain ⟨rfl, -⟩ := List.cons.inj h
      rw [List.append_nil]
      exact hsettles
    | cons first before =>
      obtain ⟨rfl, hcalls⟩ := List.cons.inj h
      rw [List.append_cons]
      exact hrest before e after hcalls

theorem map_names_session (run : Runner ω) (i : Interpreter) (calls : List (List String))
    (known : Findings) (s : ω) : (i.session run calls known s).map Exchange.names = calls := by
  induction calls generalizing known s with
  | nil => rfl
  | cons names calls ih =>
    rw [session, List.map_cons, ih]
    rfl

/-- No name is ever answered twice, however it is spelled, and every call does what it should:
it asks once for the names that have no entry, gives the first entries for its names, and leaves
nothing behind if it fails. -/
theorem session_asks_once (run : Runner ω) (i : Interpreter) (calls : List (List String)) (s : ω) :
    (i.session run calls ∅ s).map Exchange.names = calls ∧
      ((Exchange.learnt (i.session run calls ∅ s)).map fun p => Name.canonical p.1).Nodup ∧
        ∀ before e after, i.session run calls ∅ s = before ++ e :: after →
          e.Settles i.executable before := by
  refine ⟨map_names_session run i calls ∅ s, ?_⟩
  have hsettles := @session_settles ω ∅ [] run i calls s .empty rfl
  simp only [List.nil_append] at hsettles
  exact hsettles

end Interpreter

/-! ### A call that fails and is made again -/

/-- The runner that has some outcomes prepared, and does not start anything after them. -/
def replaying : Runner (List Outcome) := fun _ _ outcomes =>
  (outcomes.headD .notStarted, outcomes.tail)

/-- An interpreter of which nothing is known yet. -/
def sessionPython : Interpreter where
  executable := ⟨"/bin/python"⟩
  report := {
    protocol := 1
    executable := none
    version := "3.11.2"
    platform := "linux"
    home := ⟨"/usr"⟩
    baseHome := none
    realHome := none
    environment := ⟨fun _ => ""⟩ }

/-- The one distribution that is installed. -/
def sessionApp : Distribution := { name := "app", version := "1.0" }

/-- What the interpreter writes when it is asked for this distribution. -/
def sessionOutput : String := "[\x7b\"name\": \"app\", \"version\": \"1.0\"\x7d]\n"

theorem listOf?_sessionOutput : Distribution.listOf? sessionOutput = some [some sessionApp] := by
  have hline : Text.lastLine sessionOutput.toList = sessionOutput.toList.dropLast := by
    decide +kernel
  have hjson : Json.parse? sessionOutput.toList.dropLast = some (.array [.object
      [(some "name", .string (some "app")), (some "version", .string (some "1.0"))]]) := by cbv
  rw [Distribution.listOf?, hline, hjson]
  decide +kernel

/-- The first run fails, and the second one answers. -/
def sessionOutcomes : List Outcome :=
  [.finished (some 1) "" "", .finished (some 0) sessionOutput ""]

/-- The distribution is asked for three times, in several spellings. -/
def sessionCalls : List (List String) :=
  [["App", "app"], ["App", "app"], ["APP"]]

/-- One spelling is asked for, again after the failure, and never after the answer. -/
theorem session_app : ∃ first second third,
    sessionPython.session replaying sessionCalls ∅ sessionOutcomes = [first, second, third] ∧
      first.runs.map Run.call = [.distributions ["App"]] ∧ first.answer.toOption = none ∧
      second.runs.map Run.call = [.distributions ["App"]] ∧ third.runs = [] ∧
      ∃ found, third.answer = .ok found ∧ found["APP"]? = some (some sessionApp) := by
  obtain ⟨hnames, -, hsettles⟩ :=
    sessionPython.session_asks_once replaying sessionCalls sessionOutcomes
  let first := sessionPython.exchange replaying ["App", "app"] ∅ sessionOutcomes
  let second := sessionPython.exchange replaying ["App", "app"] ∅ sessionOutcomes.tail
  obtain ⟨third, hsession⟩ : ∃ third, sessionPython.session replaying sessionCalls ∅
      sessionOutcomes = [first, second, third] := ⟨_, rfl⟩
  have hfirst := hsettles [] first [second, third] hsession
  have hthird := hsettles [first, second] third [] hsession
  have hruns : first.runs =
      [⟨⟨"/bin/python"⟩, .distributions ["App"], .finished (some 1) "" ""⟩] := by
    decide +kernel
  have hruns' : second.runs =
      [⟨⟨"/bin/python"⟩, .distributions ["App"], .finished (some 0) sessionOutput ""⟩] := by
    show (Interpreter.exchange ..).runs = _
    rw [Interpreter.runs_exchange]
    decide +kernel
  have hlearnt : Exchange.learnt [first] = [] := by
    rw [Exchange.learnt, List.flatMap_singleton, hruns]
    rfl
  have hlearnt' : Exchange.learnt [first, second] = [("App", some sessionApp)] := by
    have hanswer : Run.entries second.runs = [("App", some sessionApp)] := by
      rw [hruns', Run.entries, List.flatMap_singleton, Run.answer?_finished,
        Interpreter.answerOf, listOf?_sessionOutput]
      rfl
    rw [← List.singleton_append, Exchange.learnt_append_singleton, hlearnt, hanswer]
    rfl
  have hthirdNames : third.names = ["APP"] := by
    rw [hsession] at hnames
    exact (List.cons.inj (List.cons.inj (List.cons.inj hnames).2).2).1
  have hthirdRuns : third.runs = [] := by
    have hasks := hthird.asks
    rw [hlearnt', hthirdNames, if_pos (by decide)] at hasks
    exact List.map_eq_nil_iff.1 hasks
  obtain ⟨found, hfound⟩ := hthird.succeeds.2 (by rw [hthirdRuns]; nofun)
  obtain ⟨entry, hentry, hspelled⟩ := (hthird.finds found hfound).2 "APP" (by simp [hthirdNames])
  have hall : Exchange.learnt ([first, second] ++ [third]) = [("App", some sessionApp)] := by
    rw [Exchange.learnt_append_singleton, hlearnt', hthirdRuns]
    rfl
  rw [hall] at hentry
  obtain rfl : entry = some sessionApp := (Option.some.inj hentry).symm
  refine ⟨first, second, third, hsession, ?_, ?_, ?_, hthirdRuns, found, hfound, hspelled⟩
  · rw [hruns]
    rfl
  · cases hanswer : first.answer with
    | error e => rfl
    | ok found =>
      have hnone := hfirst.succeeds.1 ⟨found, hanswer⟩
      rw [hruns] at hnone
      nomatch hnone _ List.mem_cons_self
  · rw [hruns']
    rfl

end Requisite
