import Requisite.Proofs.Distribution.Closure

/-!
# Findings that are kept

A layer is looked up with one question for the names of it that nothing is known of, or with none.
If the source answers from a table, the findings that are kept agree with the table, and a name
that is known has the entry that an answer would have given.

* **`Closure.lookUp_cases`** — all that a look-up can do;
* **`Closure.learns_lookUp`** — what the findings on the layer are afterwards.
-/

namespace Requisite

open Std

variable {σ ε : Type}

/-! ### Findings and a table -/

namespace Findings

/-- Every entry of the findings is that of the table. -/
def Agrees (found : Findings) (table : KeyMap String Distribution) : Prop :=
  ∀ (n : String) (entry : Option Distribution), found[n]? = some entry → entry = table[n]?

/-- The findings `found'` have an entry of the table for each of the names, and are those of
`found` otherwise. -/
structure Learns (found : Findings) (table : KeyMap String Distribution) (names : String → Prop)
    (found' : Findings) : Prop where
  learnt (n : String) : names n → found'[n]? = some table[n]?
  kept (n : String) : ¬names n → found'[n]? = found[n]?

variable {found found' found'' : Findings} {table : KeyMap String Distribution}
  {names names' : String → Prop}

theorem agrees_empty (table : KeyMap String Distribution) : Agrees ∅ table := by
  intro n entry h
  rw [ExtTreeMap.getElem?_empty] at h
  nomatch h

theorem Agrees.getElem? (h : found.Agrees table) {n : String} (hn : n ∈ found) :
    found[n]? = some table[n]? := by
  obtain ⟨entry, hentry⟩ := Option.isSome_iff_exists.1 (ExtTreeMap.mem_iff_isSome_getElem?.1 hn)
  rw [hentry, h n entry hentry]

theorem Learns.agrees (h : found.Learns table names found') (hfound : found.Agrees table) :
    found'.Agrees table := by
  intro n entry hentry
  by_cases hn : names n
  · exact (Option.some.inj ((h.learnt n hn).symm.trans hentry)).symm
  · exact hfound n entry ((h.kept n hn).symm.trans hentry)

/-- Only the names with an entry are known afterwards that were not known before. -/
theorem Learns.mem_iff (h : found.Learns table names found') {n : String} :
    n ∈ found' ↔ names n ∨ n ∈ found := by
  by_cases hn : names n
  · refine iff_of_true ?_ (Or.inl hn)
    rw [ExtTreeMap.mem_iff_isSome_getElem?, h.learnt n hn]
    rfl
  · rw [ExtTreeMap.mem_iff_isSome_getElem?, h.kept n hn, or_iff_right hn,
      ExtTreeMap.mem_iff_isSome_getElem?]

theorem learns_self (h : found.Agrees table) (hknown : ∀ n, names n → n ∈ found) :
    found.Learns table names found where
  learnt n hn := h.getElem? (hknown n hn)
  kept _ _ := rfl

theorem Learns.eq_self (h : found.Learns table names found') (hfound : found.Agrees table)
    (hknown : ∀ n, names n → n ∈ found) : found' = found := by
  apply ExtTreeMap.ext_getElem?
  intro n
  by_cases hn : names n
  · rw [h.learnt n hn, hfound.getElem? (hknown n hn)]
  · exact h.kept n hn

theorem Learns.trans (h : found.Learns table names found')
    (h' : found'.Learns table names' found'') :
    found.Learns table (fun n => names n ∨ names' n) found'' := by
  constructor
  case learnt =>
    intro n hn
    by_cases hn' : names' n
    · exact h'.learnt n hn'
    · rw [h'.kept n hn', h.learnt n (hn.resolve_right hn')]
  case kept =>
    intro n hn
    rw [h'.kept n (not_or.1 hn).2, h.kept n (not_or.1 hn).1]

/-- Only names that were not known count, as the entries of the others are those of the table. -/
theorem Learns.congr (h : found.Learns table names found') (hfound : found.Agrees table)
    (hnames : ∀ n, n ∉ found → (names n ↔ names' n)) : found.Learns table names' found' := by
  have hknown : ∀ n ∈ found, found'[n]? = found[n]? := by
    intro n hn
    by_cases hlearnt : names n
    · rw [h.learnt n hlearnt, hfound.getElem? hn]
    · exact h.kept n hlearnt
  constructor
  case learnt =>
    intro n hn
    by_cases hold : n ∈ found
    · rw [hknown n hold, hfound.getElem? hold]
    · exact h.learnt n ((hnames n hold).2 hn)
  case kept =>
    intro n hn
    by_cases hold : n ∈ found
    · exact hknown n hold
    · exact h.kept n fun hlearnt => hn ((hnames n hold).1 hlearnt)

end Findings

/-! ### Questions -/

/-- The state of a source that was asked for some lists of names, one after the other. -/
def Source.afterAsking (src : Source σ ε) (s : σ) (batches : List (List String)) : σ :=
  batches.foldl (fun s names => (src.fetch names s).2) s

/-- A source that is asked for some lists of names, one after the other, answers each time. -/
def Source.AnswersAll (src : Source σ ε) : σ → List (List String) → Prop
  | _, [] => True
  | s, names :: batches =>
    (∃ answer, (src.fetch names s).1 = .ok answer) ∧ AnswersAll src (src.fetch names s).2 batches

/-- Asked for a name, at once or after other questions, the source answers with a distribution, or
with none. -/
def Source.Tells (src : Source σ ε) (s : σ) (n : String) (entry : Option Distribution) : Prop :=
  ∃ s' asked answer s'', src.Reaches s s' ∧ src.fetch asked s' = (.ok answer, s'') ∧ n ∈ asked ∧
    (answer[n]?).join = entry

theorem Source.AnswersFrom.eq_of_tells {src : Source σ ε} {s : σ}
    {table : KeyMap String Distribution} (h : src.AnswersFrom s table) {n : String}
    {entry : Option Distribution} (htells : src.Tells s n entry) : entry = table[n]? := by
  obtain ⟨s', asked, answer, s'', hs', hfetch, hn, hentry⟩ := htells
  rw [← hentry, h.answer s' asked answer s'' hs' hfetch n hn]

theorem Source.Reaches.afterAsking {src : Source σ ε} {s s' : σ} (h : src.Reaches s s')
    (batches : List (List String)) : src.Reaches s (src.afterAsking s' batches) := by
  induction batches generalizing s' with
  | nil => exact h
  | cons names batches ih => exact ih (h.fetch names)

theorem Source.afterAsking_append (src : Source σ ε) (s : σ) (batches rest : List (List String)) :
    src.afterAsking s (batches ++ rest) = src.afterAsking (src.afterAsking s batches) rest :=
  List.foldl_append

theorem Source.answersAll_append {src : Source σ ε} {s : σ} {batches rest : List (List String)} :
    src.AnswersAll s (batches ++ rest) ↔
      src.AnswersAll s batches ∧ src.AnswersAll (src.afterAsking s batches) rest := by
  induction batches generalizing s with
  | nil => exact (and_iff_right trivial).symm
  | cons names batches ih =>
    rw [List.cons_append, AnswersAll, AnswersAll, ih, and_assoc]
    rfl

namespace Closure

/-- The questions for some layers: the names of each that nothing is known of, if there are any. -/
def batches (found : Findings) (layers : List Names) : List (List String) :=
  (layers.map fun layer => unknown layer found).filter fun names => !names.isEmpty

variable {src : Source σ ε} {found found' : Findings} {layer : Names} {layers : List Names}

theorem mem_unknown {n : String} : n ∈ unknown layer found ↔ n ∈ layer ∧ n ∉ found := by
  rw [unknown, List.mem_filter, ExtTreeSet.mem_toList, Bool.not_eq_true', Bool.eq_false_iff]
  rfl

theorem unknown_congr (h : ∀ n ∈ layer, n ∈ found ↔ n ∈ found') :
    unknown layer found = unknown layer found' := by
  apply List.filter_congr
  intro n hn
  rw [Bool.not_inj_iff, Bool.eq_iff_iff]
  exact h n (ExtTreeSet.mem_toList.1 hn)

theorem batches_congr (h : ∀ layer ∈ layers, ∀ n ∈ layer, n ∈ found ↔ n ∈ found') :
    batches found layers = batches found' layers := by
  rw [batches, batches, List.map_congr_left fun layer hlayer => unknown_congr (h layer hlayer)]

theorem batches_append (found : Findings) (before after : List Names) :
    batches found (before ++ after) = batches found before ++ batches found after := by
  rw [batches, List.map_append, List.filter_append]
  rfl

theorem batches_singleton_of_nil (h : unknown layer found = []) : batches found [layer] = [] := by
  simp [batches, h]

theorem batches_singleton_of_ne_nil (h : unknown layer found ≠ []) :
    batches found [layer] = [unknown layer found] := by
  simp [batches, h]

theorem mem_flatten_batches {n : String} :
    n ∈ (batches found layers).flatten ↔ (∃ layer ∈ layers, n ∈ layer) ∧ n ∉ found := by
  rw [batches, List.flatten_filter_not_isEmpty, ← List.flatMap_def, List.mem_flatMap]
  simp only [mem_unknown, ← and_assoc, exists_and_right]

theorem unknown_eq_nil (h : ∀ n ∈ layer, n ∈ found) : unknown layer found = [] := by
  refine List.eq_nil_iff_forall_not_mem.2 fun n hn => ?_
  obtain ⟨hlayer, hnew⟩ := mem_unknown.1 hn
  exact hnew (h n hlayer)

/-- Where all is known there are no questions. -/
theorem batches_eq_nil (h : ∀ layer ∈ layers, ∀ n ∈ layer, n ∈ found) :
    batches found layers = [] := by
  refine List.filter_eq_nil_iff.2 fun names hnames => ?_
  obtain ⟨layer, hlayer, hunknown⟩ := List.mem_map.1 hnames
  rw [← hunknown, unknown_eq_nil (h layer hlayer)]
  exact Bool.false_ne_true

/-- No question is empty, and each is in the order of names, without a name twice. -/
theorem sorted_of_mem_batches {names : List String} (h : names ∈ batches found layers) :
    names ≠ [] ∧ names.Pairwise fun a b => compare a b = .lt := by
  rw [batches, List.mem_filter, List.mem_map] at h
  obtain ⟨⟨layer, -, hnames⟩, hne⟩ := h
  subst hnames
  refine ⟨fun hnil => ?_, ExtTreeSet.ordered_toList.filter _⟩
  rw [hnil] at hne
  nomatch hne

/-! ### Looking up a layer -/

/-- A layer is looked up without a question if all is known of it, and with one otherwise. -/
theorem lookUp_cases (src : Source σ ε) (layer : Names) (found : Findings) (s : σ) :
    (unknown layer found = [] ∧ lookUp src layer found s = (.ok found, s)) ∨
    unknown layer found ≠ [] ∧
      ((∃ e s', src.fetch (unknown layer found) s = (.error e, s') ∧
        lookUp src layer found s = (.error e, s')) ∨
      ∃ answer s', src.fetch (unknown layer found) s = (.ok answer, s') ∧
        lookUp src layer found s = (.ok (record (unknown layer found) answer found), s')) := by
  unfold lookUp
  cases hunknown : unknown layer found with
  | nil => exact Or.inl ⟨rfl, rfl⟩
  | cons name rest =>
    refine Or.inr ⟨List.cons_ne_nil name rest, ?_⟩
    cases hfetch : src.fetch (name :: rest) s with
    | mk answer s' =>
      cases answer with
      | error e => exact Or.inl ⟨e, s', rfl, by dsimp only; rw [hfetch]⟩
      | ok answer => exact Or.inr ⟨answer, s', rfl, by dsimp only; rw [hfetch]⟩

variable {s s₀ s' : σ}

/-- A look-up fails at its question only. -/
theorem lookUp_eq_error {e : ε} (h : lookUp src layer found s = (.error e, s')) :
    unknown layer found ≠ [] ∧ src.fetch (unknown layer found) s = (.error e, s') := by
  rcases lookUp_cases src layer found s with
    ⟨-, hok⟩ | ⟨hne, ⟨e', s₁, hfetch, herror⟩ | ⟨_, _, -, hok⟩⟩
  · nomatch (Prod.mk.inj (hok.symm.trans h)).1
  · refine ⟨hne, hfetch.trans ?_⟩
    obtain ⟨he, hs⟩ := Prod.mk.inj (herror.symm.trans h)
    rw [Except.error.inj he, hs]
  · nomatch (Prod.mk.inj (hok.symm.trans h)).1

/-- A look-up records the answer to its question, if it has one. -/
theorem lookUp_eq_ok (h : lookUp src layer found s = (.ok found', s')) :
    s' = src.afterAsking s (batches found [layer]) ∧ src.AnswersAll s (batches found [layer]) ∧
      ∃ answer, found' = record (unknown layer found) answer found ∧
        (unknown layer found ≠ [] → src.fetch (unknown layer found) s = (.ok answer, s')) := by
  rcases lookUp_cases src layer found s with
    ⟨hnil, hok⟩ | ⟨hne, ⟨_, _, -, herror⟩ | ⟨answer, s₁, hfetch, hok⟩⟩
  · obtain ⟨hfound, hs⟩ := Prod.mk.inj (hok.symm.trans h)
    obtain rfl := Except.ok.inj hfound
    subst hs
    rw [batches_singleton_of_nil hnil, hnil]
    exact ⟨rfl, trivial, ∅, rfl, fun hne => absurd rfl hne⟩
  · nomatch (Prod.mk.inj (herror.symm.trans h)).1
  · obtain ⟨hfound, hs⟩ := Prod.mk.inj (hok.symm.trans h)
    obtain rfl := Except.ok.inj hfound
    subst hs
    rw [batches_singleton_of_ne_nil hne]
    exact ⟨(congrArg Prod.snd hfetch).symm, ⟨⟨answer, congrArg Prod.fst hfetch⟩, trivial⟩, answer,
      rfl, fun _ => hfetch⟩

theorem reaches_lookUp (hs : src.Reaches s₀ s) (h : lookUp src layer found s = (.ok found', s')) :
    src.Reaches s₀ s' := by
  rw [(lookUp_eq_ok h).1]
  exact hs.afterAsking _

/-- A source that never fails leads to a graph. -/
theorem Ends.exists_ok {graph : DistributionGraph} {requests : Requests}
    {r : Except ε DistributionGraph × Findings × σ} (h : Ends src layer graph requests found s r)
    (hs : src.Reaches s₀ s)
    (hanswers : ∀ s' asked, src.Reaches s₀ s' → ∃ answer, (src.fetch asked s').1 = .ok answer) :
    ∃ g, r.1 = .ok g := by
  induction h with
  | @done layer graph => exact ⟨graph, rfl⟩
  | @failed layer _ _ found s _ _ _ hlookUp =>
    obtain ⟨answer, hanswer⟩ := hanswers s (unknown layer found) hs
    rw [(lookUp_eq_error hlookUp).2] at hanswer
    nomatch hanswer
  | layer _ hlookUp _ ih => exact ih (reaches_lookUp hs hlookUp)

/-- A look-up keeps the findings and adds what the source says on the other names of the layer. -/
theorem getElem?_lookUp (hs : src.Reaches s₀ s)
    (h : lookUp src layer found s = (.ok found', s')) (n : String) :
    (n ∈ unknown layer found ∧ ∃ entry, found'[n]? = some entry ∧ src.Tells s₀ n entry) ∨
      n ∉ unknown layer found ∧ found'[n]? = found[n]? := by
  obtain ⟨-, -, answer, rfl, hfetch⟩ := lookUp_eq_ok h
  by_cases hn : n ∈ unknown layer found
  · refine Or.inl ⟨hn, _, getElem?_record_of_mem answer found hn, ?_⟩
    exact ⟨s, _, answer, s', hs, hfetch (List.ne_nil_of_mem hn), hn, rfl⟩
  · exact Or.inr ⟨hn, getElem?_record_of_notMem answer found hn⟩

/-- Every name of a layer that was looked up is known. -/
theorem exists_getElem?_lookUp (hs : src.Reaches s₀ s)
    (h : lookUp src layer found s = (.ok found', s')) {n : String} (hn : n ∈ layer) :
    ∃ entry, found'[n]? = some entry := by
  rcases getElem?_lookUp hs h n with ⟨-, entry, hentry, -⟩ | ⟨hknown, hkept⟩
  · exact ⟨entry, hentry⟩
  · rw [hkept, ← Option.isSome_iff_exists, ← ExtTreeMap.mem_iff_isSome_getElem?]
    by_cases hold : n ∈ found
    · exact hold
    · exact absurd (mem_unknown.2 ⟨hn, hold⟩) hknown

/-- The findings on a layer of a source that answers from a table are those of the table. -/
theorem learns_lookUp {table : KeyMap String Distribution} (hsrc : src.AnswersFrom s₀ table)
    (hs : src.Reaches s₀ s) (hfound : found.Agrees table)
    (h : lookUp src layer found s = (.ok found', s')) :
    found.Learns table (· ∈ layer) found' := by
  have hcases := getElem?_lookUp hs h
  have hlearns : found.Learns table (· ∈ unknown layer found) found' := by
    constructor
    case learnt =>
      intro n hn
      obtain ⟨-, entry, hentry, htells⟩ := (hcases n).resolve_right fun h => h.1 hn
      rw [hentry, hsrc.eq_of_tells htells]
    case kept =>
      intro n hn
      exact ((hcases n).resolve_left fun h => hn h.1).2
  refine hlearns.congr hfound fun n hn => ?_
  rw [mem_unknown, and_iff_left hn]

end Closure

end Requisite
