import Requisite.Digraph.Basic

/-!
# Members of key sets and key maps

The members of sets and maps whose order tells all keys apart, so that equality of keys takes the
place of their comparison.

* **`KeySet.mem_insertMany`**, **`KeySet.mem_ofList`** — nothing is added but the list;
* **`KeySet.nodup_toList`**, **`KeySet.toList_eq`** — a set lists each of its members once, and in
  one order only;
* **`KeyMap.mem_insert_iff`**, **`KeyMap.mem_erase_iff`** — the keys after one was added or taken.
-/

namespace Requisite

open Std

namespace KeyMap

variable {κ β : Type} {cmp : κ → κ → Ordering} [TransCmp cmp] [LawfulEqCmp cmp]

theorem mem_insert_iff {m : ExtTreeMap κ β cmp} {k x : κ} {v : β} :
    x ∈ m.insert k v ↔ x = k ∨ x ∈ m := by
  rw [ExtTreeMap.mem_insert, LawfulEqCmp.compare_eq_iff_eq, eq_comm]

theorem mem_erase_iff {m : ExtTreeMap κ β cmp} {k x : κ} : x ∈ m.erase k ↔ x ≠ k ∧ x ∈ m := by
  rw [ExtTreeMap.mem_erase, ne_eq, LawfulEqCmp.compare_eq_iff_eq, ne_eq, eq_comm]

theorem getElem?_insert_of_ne {m : ExtTreeMap κ β cmp} {k x : κ} {v : β} (h : x ≠ k) :
    (m.insert k v)[x]? = m[x]? := by
  rw [ExtTreeMap.getElem?_insert, if_neg]
  rw [LawfulEqCmp.compare_eq_iff_eq]
  exact Ne.symm h

theorem getElem?_modify_of_ne {m : ExtTreeMap κ β cmp} {k x : κ} {f : β → β} (h : x ≠ k) :
    (m.modify k f)[x]? = m[x]? := by
  rw [ExtTreeMap.getElem?_modify, if_neg]
  rw [LawfulEqCmp.compare_eq_iff_eq]
  exact Ne.symm h

theorem getElem?_erase_of_ne {m : ExtTreeMap κ β cmp} {k x : κ} (h : x ≠ k) :
    (m.erase k)[x]? = m[x]? := by
  rw [ExtTreeMap.getElem?_erase, if_neg]
  rw [LawfulEqCmp.compare_eq_iff_eq]
  exact Ne.symm h

omit [LawfulEqCmp cmp] in
theorem getElem?_eq_none_iff {m : ExtTreeMap κ β cmp} {k : κ} : m[k]? = none ↔ k ∉ m := by
  rw [ExtTreeMap.mem_iff_isSome_getElem?, Option.not_isSome_iff_eq_none]

theorem erase_of_notMem {m : ExtTreeMap κ β cmp} {k : κ} (h : k ∉ m) : m.erase k = m := by
  refine ExtTreeMap.ext_getElem? fun x => ?_
  by_cases hx : x = k
  · rw [hx, ExtTreeMap.getElem?_erase_self, getElem?_eq_none_iff.2 h]
  · exact getElem?_erase_of_ne hx

theorem modify_of_notMem {m : ExtTreeMap κ β cmp} {k : κ} {f : β → β} (h : k ∉ m) :
    m.modify k f = m := by
  refine ExtTreeMap.ext_getElem? fun x => ?_
  by_cases hx : x = k
  · rw [hx, ExtTreeMap.getElem?_modify_self, getElem?_eq_none_iff.2 h]
    rfl
  · exact getElem?_modify_of_ne hx

theorem modify_eq_insert {m : ExtTreeMap κ β cmp} {k : κ} {v : β} {f : β → β}
    (h : m[k]? = some v) : m.modify k f = m.insert k (f v) := by
  refine ExtTreeMap.ext_getElem? fun x => ?_
  by_cases hx : x = k
  · rw [hx, ExtTreeMap.getElem?_modify_self, ExtTreeMap.getElem?_insert_self, h]
    rfl
  · rw [getElem?_modify_of_ne hx, getElem?_insert_of_ne hx]

omit [LawfulEqCmp cmp] in
theorem nodup_keys (m : ExtTreeMap κ β cmp) : m.keys.Nodup := by
  refine m.distinct_keys.imp fun {a b} hab h => hab ?_
  rw [h]
  exact ReflCmp.compare_self

/-- A map without values is given by its keys. -/
theorem eq_of_mem {m m' : ExtTreeMap κ Unit cmp} (h : ∀ k, k ∈ m ↔ k ∈ m') : m = m' := by
  refine ExtTreeMap.ext_getElem? fun k => ?_
  have hk := h k
  rw [ExtTreeMap.mem_iff_isSome_getElem?, ExtTreeMap.mem_iff_isSome_getElem?] at hk
  cases hm : m[k]? <;> cases hm' : m'[k]? <;> simp_all

end KeyMap

namespace KeySet

variable {κ : Type} [Ord κ] [TransOrd κ] [LawfulEqOrd κ]

theorem mem_insert_iff {s : KeySet κ} {k x : κ} : x ∈ s.insert k ↔ x = k ∨ x ∈ s := by
  rw [ExtTreeSet.mem_insert, Std.compare_eq_iff_eq, eq_comm]

theorem mem_erase_iff {s : KeySet κ} {k x : κ} : x ∈ s.erase k ↔ x ≠ k ∧ x ∈ s := by
  rw [ExtTreeSet.mem_erase, ne_eq, Std.compare_eq_iff_eq, ne_eq, eq_comm]

theorem mem_insertMany {s : KeySet κ} {l : List κ} {x : κ} :
    x ∈ s.insertMany l ↔ x ∈ s ∨ x ∈ l := by
  induction l generalizing s with
  | nil => rw [ExtTreeSet.insertMany_nil, List.mem_nil_iff, or_false]
  | cons y l ih =>
    rw [ExtTreeSet.insertMany_cons, ih, mem_insert_iff, List.mem_cons, or_assoc]
    exact or_left_comm

theorem mem_ofList {l : List κ} {x : κ} : x ∈ (ExtTreeSet.ofList l : KeySet κ) ↔ x ∈ l := by
  rw [ExtTreeSet.ofList_eq_insertMany_empty, mem_insertMany, or_iff_right]
  exact ExtTreeSet.not_mem_empty

omit [LawfulEqOrd κ] in
theorem nodup_toList (s : KeySet κ) : s.toList.Nodup := by
  refine s.distinct_toList.imp fun {a b} hab h => hab ?_
  rw [h]
  exact ReflCmp.compare_self

/-- An ordered list of the members of a set is the list of the set. -/
theorem toList_eq {s : KeySet κ} {l : List κ} (hl : l.Pairwise fun a b => compare a b = .lt)
    (hmem : ∀ x, x ∈ s ↔ x ∈ l) : s.toList = l := by
  have hnodup : l.Nodup := by
    refine hl.imp fun {a b} hab h => ?_
    rw [h, compare_self] at hab
    nomatch hab
  have hperm : s.toList.Perm l := by
    refine (List.perm_ext_iff_of_nodup (nodup_toList s) hnodup).2 fun x => ?_
    rw [ExtTreeSet.mem_toList, hmem]
  refine hperm.eq_of_pairwise (fun a b _ _ hab hba => ?_) s.ordered_toList hl
  rw [OrientedCmp.gt_of_lt hab] at hba
  nomatch hba

end KeySet

end Requisite
