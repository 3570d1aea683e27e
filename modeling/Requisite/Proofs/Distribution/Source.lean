import Requisite.Distribution.Source
import Requisite.Proofs.Keys

/-!
# Finite sources

A source that reports distributions under finitely many names only, whatever it is asked and
whatever it was asked before, and one whose answers, where it gives one, are those of a finite
table.

* **`Source.Installs`** — the names that a source ever reports a distribution under;
* **`Source.AnswersFrom`** — the table that a source answers from;
* **`Catalog.installs`**, **`Catalog.answersFrom`** — a catalog is such a source.
-/

namespace Requisite

open Std

variable {σ ε : Type}

/-- A source comes from one state into another one by being asked. -/
inductive Source.Reaches (src : Source σ ε) (s : σ) : σ → Prop
  | refl : Reaches src s s
  | fetch {s' : σ} (h : Reaches src s s') (names : List String) :
      Reaches src s (src.fetch names s').2

/-- All distributions that a source ever reports are under `names`, which are finitely many. -/
def Source.Installs (src : Source σ ε) (s : σ) (names : Names) : Prop :=
  ∀ s' asked answer s'', src.Reaches s s' → src.fetch asked s' = (.ok answer, s'') →
    ∀ n ∈ asked, ∀ d, answer[n]? = some (some d) → n ∈ names

/-- A source answers from a table: an answer has the distribution that the table has under a name
that was asked for, and no distribution if the table has none, with an entry for it or without.  The
source knows a bound of the table. -/
structure Source.AnswersFrom (src : Source σ ε) (s : σ) (table : KeyMap String Distribution) :
    Prop where
  answer (s' : σ) (asked : List String) (answer : Findings) (s'' : σ) : src.Reaches s s' →
    src.fetch asked s' = (.ok answer, s'') → ∀ n ∈ asked, (answer[n]?).join = table[n]?
  bound (s' : σ) : src.Reaches s s' → table.size ≤ src.capacity s'

theorem Source.Reaches.trans {src : Source σ ε} {s s' s'' : σ} (h : src.Reaches s s')
    (h' : src.Reaches s' s'') : src.Reaches s s'' := by
  induction h' with
  | refl => exact h
  | fetch _ names ih => exact ih.fetch names

theorem Source.AnswersFrom.of_reaches {src : Source σ ε} {s s' : σ}
    {table : KeyMap String Distribution} (h : src.AnswersFrom s table) (hs : src.Reaches s s') :
    src.AnswersFrom s' table where
  answer s₁ asked answer s₂ hs₁ := h.answer s₁ asked answer s₂ (hs.trans hs₁)
  bound s₁ hs₁ := h.bound s₁ (hs.trans hs₁)

/-- A source that answers from a table reports distributions under the names of the table only. -/
theorem Source.AnswersFrom.installs {src : Source σ ε} {s : σ}
    {table : KeyMap String Distribution} (h : src.AnswersFrom s table) :
    src.Installs s (ExtTreeSet.ofList table.keys) := by
  intro s' asked answer s'' hs' hfetch n hn d hd
  have hanswer := h.answer s' asked answer s'' hs' hfetch n hn
  rw [hd, Option.join_some] at hanswer
  rw [KeySet.mem_ofList, ExtTreeMap.mem_keys, ExtTreeMap.mem_iff_isSome_getElem?, ← hanswer]
  rfl

theorem size_ofList_keys_le (table : KeyMap String Distribution) :
    (ExtTreeSet.ofList table.keys : Names).size ≤ table.size := by
  have h : (ExtTreeSet.ofList table.keys : Names).size ≤ table.keys.length :=
    ExtTreeSet.size_ofList_le
  rw [ExtTreeMap.length_keys] at h
  exact h

namespace Catalog

/-- The names of a table. -/
def names (c : Catalog ε) : Names :=
  ExtTreeSet.ofList c.installed.keys

theorem size_names_le (c : Catalog ε) (s : List (List String)) :
    c.names.size ≤ c.source.capacity s :=
  size_ofList_keys_le c.installed

/-- The findings with the one on a name. -/
def note (c : Catalog ε) (found : Findings) (name : String) : Findings :=
  match c.installed[name]? with
  | some d => found.insert name (some d)
  | none => if c.lists name then found.insert name none else found

theorem findings_eq_foldl (c : Catalog ε) (asked : List String) :
    c.findings asked = asked.foldl c.note ∅ := rfl

/-- The findings on a name are those of the table once the name was noted. -/
theorem join_note (c : Catalog ε) {found : Findings} (name : String) {n : String}
    (h : ∀ d, (found[n]?).join = some d → c.installed[n]? = some d) :
    ((c.note found name)[n]?).join = if n = name then c.installed[n]? else (found[n]?).join := by
  unfold note
  by_cases heq : n = name
  · subst heq
    rw [if_pos rfl]
    cases hname : c.installed[n]? with
    | some d => exact congrArg Option.join ExtTreeMap.getElem?_insert_self
    | none =>
      cases c.lists n with
      | true => exact congrArg Option.join ExtTreeMap.getElem?_insert_self
      | false =>
        show (found[n]?).join = none
        rw [Option.eq_none_iff_forall_ne_some]
        intro d hd
        nomatch hname.symm.trans (h d hd)
  · rw [if_neg heq]
    have hkeep : ∀ d, ((found.insert name d)[n]?).join = (found[n]?).join := by
      intro d
      rw [KeyMap.getElem?_insert_of_ne heq]
    cases c.installed[name]? with
    | some d => exact hkeep (some d)
    | none =>
      cases c.lists name with
      | true => exact hkeep none
      | false => rfl

theorem join_foldl_note (c : Catalog ε) (asked : List String) {found : Findings} {n : String}
    (h : ∀ d, (found[n]?).join = some d → c.installed[n]? = some d) :
    ((asked.foldl c.note found)[n]?).join =
      if n ∈ asked then c.installed[n]? else (found[n]?).join := by
  induction asked generalizing found with
  | nil => rfl
  | cons name asked ih =>
    have hnote := c.join_note name h
    have hnext : ∀ d, ((c.note found name)[n]?).join = some d → c.installed[n]? = some d := by
      intro d hd
      rw [hnote] at hd
      split at hd
      · exact hd
      · exact h d hd
    rw [List.foldl_cons, ih hnext, hnote]
    by_cases heq : n = name
    · rw [if_pos heq, if_pos (List.mem_cons.2 (Or.inl heq)), ite_self]
    · rw [if_neg heq]
      simp only [List.mem_cons, heq, false_or]

/-- A table is a source that answers from it. -/
theorem answersFrom (c : Catalog ε) (s : List (List String)) :
    c.source.AnswersFrom s c.installed := by
  constructor
  case answer =>
    intro s' asked answer s'' _ hfetch n hn
    have hanswer := (Prod.mk.inj hfetch).1
    cases hrefusal : c.refusal asked with
    | some e =>
      rw [hrefusal] at hanswer
      nomatch hanswer
    | none =>
      rw [hrefusal] at hanswer
      obtain rfl : c.findings asked = answer := Except.ok.inj hanswer
      rw [findings_eq_foldl, c.join_foldl_note asked fun d hd => ?_, if_pos hn]
      rw [ExtTreeMap.getElem?_empty] at hd
      nomatch hd
  case bound => exact fun s' _ => Nat.le_refl _

/-- A table is a source that knows finitely many distributions. -/
theorem installs (c : Catalog ε) (s : List (List String)) : c.source.Installs s c.names :=
  (c.answersFrom s).installs

end Catalog

end Requisite
