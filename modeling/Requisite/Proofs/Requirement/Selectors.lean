import Requisite.Proofs.Outcome
import Requisite.Requirement.Parser

/-!
# Selectors

The fragment of a repository selects a commit by `rev`, `branch` or `tag`.  Its entries are taken one
after the other, each selector into a place of its own, and what is in these places in the end has to be
one reference at most.

* `Reference.ofEntry?` — the reference that an entry selects;
* `Selectors.add_cases` — what one entry does;
* `Selectors.perm_of_addAll` — some entries leave the references that they select;
* **`Selectors.read_eq_ok_iff`** — some entries are accepted if and only if they select at most once.
-/

namespace Requisite

/-- The reference that an entry of a fragment selects; other keys select none. -/
def Reference.ofEntry? (entry : List Char × List Char) : Option Reference :=
  if entry.1 = "rev".toList then some (.rev (String.ofList entry.2))
  else if entry.1 = "branch".toList then some (.branch (String.ofList entry.2))
  else if entry.1 = "tag".toList then some (.tag (String.ofList entry.2))
  else none

theorem Reference.value_of_ofEntry? {entry : List Char × List Char} {r : Reference}
    (h : ofEntry? entry = some r) : r.value = String.ofList entry.2 := by
  unfold ofEntry? at h
  split at h
  next => exact Option.some.inj h ▸ rfl
  next =>
    split at h
    next => exact Option.some.inj h ▸ rfl
    next =>
      split at h
      next => exact Option.some.inj h ▸ rfl
      next => nomatch h

namespace Selectors

/-- The selectors with those among some entries. -/
def addAll (entries : List (List Char × List Char)) (s : Selectors) :
    Except DependencyFault Selectors :=
  entries.foldlM (fun s (key, value) => s.add key value) s

theorem addAll_cons (entry : List Char × List Char) (entries : List (List Char × List Char))
    (s : Selectors) : addAll (entry :: entries) s = s.add entry.1 entry.2 >>= addAll entries :=
  rfl

/-- An entry selects nothing and is ignored, or it selects a reference, which is added if none of its
kind is there. -/
theorem add_cases (s : Selectors) (entry : List Char × List Char) :
    (Reference.ofEntry? entry = .none ∧ s.add entry.1 entry.2 = .ok s) ∨
      ∃ r, Reference.ofEntry? entry = some r ∧
        ((s.references ≠ [] ∧ ∃ fault, s.add entry.1 entry.2 = .error fault) ∨
          ∃ s', s.add entry.1 entry.2 = .ok s' ∧ s'.references.Perm (r :: s.references)) := by
  obtain ⟨key, value⟩ := entry
  obtain ⟨rev, branch, tag⟩ := s
  simp only [Reference.ofEntry?, add]
  by_cases hrev : key = "rev".toList
  · rw [if_pos hrev, if_pos hrev]
    refine Or.inr ⟨_, rfl, ?_⟩
    cases rev with
    | some v => exact Or.inl ⟨by simp [references], _, rfl⟩
    | none => exact Or.inr ⟨_, rfl, by simp [references]⟩
  rw [if_neg hrev, if_neg hrev]
  by_cases hbranch : key = "branch".toList
  · rw [if_pos hbranch, if_pos hbranch]
    refine Or.inr ⟨_, rfl, ?_⟩
    cases branch with
    | some v => exact Or.inl ⟨by simp [references], _, rfl⟩
    | none => exact Or.inr ⟨_, rfl, by simp [references]⟩
  rw [if_neg hbranch, if_neg hbranch]
  by_cases htag : key = "tag".toList
  · rw [if_pos htag, if_pos htag]
    refine Or.inr ⟨_, rfl, ?_⟩
    cases tag with
    | some v => exact Or.inl ⟨by simp [references], _, rfl⟩
    | none =>
      refine Or.inr ⟨_, rfl, ?_⟩
      simp only [references, Option.map_none, Option.toList_none, List.append_nil]
      exact List.perm_append_singleton _ _
  rw [if_neg htag, if_neg htag]
  exact Or.inl ⟨rfl, rfl⟩

/-- The references of some entries are those that the entries select. -/
theorem perm_of_addAll {entries : List (List Char × List Char)} {s s' : Selectors}
    (h : addAll entries s = .ok s') :
    s'.references.Perm (s.references ++ entries.filterMap Reference.ofEntry?) := by
  induction entries generalizing s with
  | nil =>
    cases h
    simp
  | cons entry entries ih =>
    obtain ⟨t, ht, hmore⟩ := Outcome.of_bind h
    have hperm := ih hmore
    rcases add_cases s entry with ⟨hnone, hsame⟩ | ⟨r, hsome, ⟨-, _, hno⟩ | ⟨t', ht', hr⟩⟩
    · rw [List.filterMap_cons_none hnone]
      obtain rfl := Except.ok.inj (hsame.symm.trans ht)
      exact hperm
    · nomatch hno.symm.trans ht
    · rw [List.filterMap_cons_some hsome]
      obtain rfl := Except.ok.inj (ht'.symm.trans ht)
      exact (hperm.trans (hr.append_right _)).trans List.perm_middle.symm

theorem reference_eq_ok_iff {s : Selectors} {reference : Option Reference} :
    s.reference = .ok reference ↔ s.references = reference.toList := by
  unfold Selectors.reference
  cases s.references with
  | nil => cases reference <;> simp
  | cons r rs =>
    cases rs with
    | nil => cases reference <;> simp
    | cons r' rs => cases reference <;> simp

/-- The reference that the selectors among some entries stand for. -/
def read (entries : List (List Char × List Char)) : Except DependencyFault (Option Reference) :=
  addAll entries Selectors.none >>= reference

/-- Some entries are accepted if they select no second reference. -/
theorem exists_addAll_eq_ok {entries : List (List Char × List Char)} {s : Selectors}
    (h : (s.references ++ entries.filterMap Reference.ofEntry?).length ≤ 1) :
    ∃ s', addAll entries s = .ok s' := by
  induction entries generalizing s with
  | nil => exact ⟨s, rfl⟩
  | cons entry entries ih =>
    rw [List.length_append] at h
    rw [addAll_cons]
    rcases add_cases s entry with ⟨hnone, hsame⟩ | ⟨r, hsome, ⟨hne, -⟩ | ⟨t, ht, hr⟩⟩
    · rw [List.filterMap_cons_none hnone] at h
      rw [hsame]
      apply ih
      rwa [List.length_append]
    · have hpos := List.length_pos_iff.2 hne
      rw [List.filterMap_cons_some hsome, List.length_cons] at h
      omega
    · rw [List.filterMap_cons_some hsome, List.length_cons] at h
      rw [ht]
      apply ih
      rw [List.length_append, hr.length_eq, List.length_cons]
      omega

/-- Some entries are accepted exactly if they select at most one reference, which they stand for
then. -/
theorem read_eq_ok_iff {entries : List (List Char × List Char)} {reference : Option Reference} :
    read entries = .ok reference ↔
      entries.filterMap Reference.ofEntry? = reference.toList := by
  have hone : ∀ {rs : List Reference}, reference.toList.Perm rs ↔ reference.toList = rs := by
    intro rs
    cases reference with
    | none => simp [eq_comm]
    | some r => simp [eq_comm]
  constructor
  · intro h
    obtain ⟨s, hs, href⟩ := Outcome.of_bind h
    have hperm : s.references.Perm (entries.filterMap Reference.ofEntry?) := perm_of_addAll hs
    rw [reference_eq_ok_iff.1 href] at hperm
    exact (hone.1 hperm).symm
  · intro h
    have hlength : (Selectors.none.references ++ entries.filterMap Reference.ofEntry?).length ≤ 1 := by
      rw [h]
      cases reference <;> simp [references, Selectors.none]
    obtain ⟨s, hs⟩ := exists_addAll_eq_ok hlength
    have hperm : s.references.Perm (entries.filterMap Reference.ofEntry?) := perm_of_addAll hs
    rw [h] at hperm
    rw [read, hs]
    exact reference_eq_ok_iff.2 (hone.1 hperm.symm).symm

/-- The reference that some entries stand for has the value of one of them. -/
theorem exists_entry_of_read {entries : List (List Char × List Char)} {reference : Option Reference}
    (h : read entries = .ok reference) {r : Reference} (hr : r ∈ reference) :
    ∃ entry ∈ entries, r.value = String.ofList entry.2 := by
  have hmem : r ∈ entries.filterMap Reference.ofEntry? := by
    rw [read_eq_ok_iff.1 h, Option.mem_toList]
    exact hr
  obtain ⟨entry, hentry, hr⟩ := List.mem_filterMap.1 hmem
  exact ⟨entry, hentry, Reference.value_of_ofEntry? hr⟩

end Selectors

end Requisite
