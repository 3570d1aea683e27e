import Requisite.Proofs.Keys

/-!
# The indexes of a graph agree with its edges

A graph keeps its edges three times over: as a map, as the successors of every node and as the
predecessors of every node; and next to them the sources and the sinks.  `Digraph.Indexed` says
that these agree, and every call keeps it.

* **`Digraph.mem_sinks_dropSuccessor`**, **`Digraph.mem_sources_dropPredecessor`** — a node becomes
  a sink or a source exactly when the last edge is taken off it;
* **`Digraph.mem_edges_detach`** — the neighbours of a node are enough to find all of its edges,
  also when it is its own neighbour;
* **`Digraph.Indexed.change`**, **`Digraph.indexes_agree`** — one call keeps the indexes, and so
  does any sequence of calls, refused ones among them.
-/

namespace Requisite.Digraph

open Std

variable {κ ν ε : Type} [Ord κ]

@[simp] theorem vertices_empty : (∅ : Digraph κ ν ε).vertices = ∅ := rfl

@[simp] theorem edges_empty : (∅ : Digraph κ ν ε).edges = ∅ := rfl

@[simp] theorem sources_empty : (∅ : Digraph κ ν ε).sources = ∅ := rfl

@[simp] theorem sinks_empty : (∅ : Digraph κ ν ε).sinks = ∅ := rfl

variable [TransOrd κ]

/-! ### What the indexes hold -/

/-- The successors that are kept for a key; none for a key without a node. -/
def outgoing (g : Digraph κ ν ε) (id : κ) : KeySet κ :=
  ((g.vertices[id]?).map Vertex.successors).getD ∅

/-- The predecessors that are kept for a key; none for a key without a node. -/
def incoming (g : Digraph κ ν ε) (id : κ) : KeySet κ :=
  ((g.vertices[id]?).map Vertex.predecessors).getD ∅

section Vertex

variable {g : Digraph κ ν ε} {id : κ} {v : Vertex κ ν}

theorem mem_vertices_of_getElem? (hv : g.vertices[id]? = some v) : id ∈ g.vertices := by
  rw [ExtTreeMap.mem_iff_isSome_getElem?, hv]
  rfl

theorem exists_getElem? (h : id ∈ g.vertices) : ∃ v, g.vertices[id]? = some v :=
  Option.isSome_iff_exists.1 (ExtTreeMap.mem_iff_isSome_getElem?.1 h)

theorem outgoing_of_getElem? (hv : g.vertices[id]? = some v) : g.outgoing id = v.successors := by
  rw [outgoing, hv]
  rfl

theorem incoming_of_getElem? (hv : g.vertices[id]? = some v) :
    g.incoming id = v.predecessors := by
  rw [incoming, hv]
  rfl

theorem outgoing_of_notMem (h : id ∉ g.vertices) : g.outgoing id = ∅ := by
  rw [outgoing, KeyMap.getElem?_eq_none_iff.2 h]
  rfl

theorem incoming_of_notMem (h : id ∉ g.vertices) : g.incoming id = ∅ := by
  rw [incoming, KeyMap.getElem?_eq_none_iff.2 h]
  rfl

/-- What a graph keeps for a key depends on its vertex alone. -/
theorem outgoing_congr {g' : Digraph κ ν ε} (h : g'.vertices[id]? = g.vertices[id]?) :
    g'.outgoing id = g.outgoing id := by
  rw [outgoing, h, outgoing]

theorem incoming_congr {g' : Digraph κ ν ε} (h : g'.vertices[id]? = g.vertices[id]?) :
    g'.incoming id = g.incoming id := by
  rw [incoming, h, incoming]

end Vertex

section Insert

variable [LawfulEqOrd κ] {g g' : Digraph κ ν ε} {id : κ} {v : Vertex κ ν}

/-- A vertex with the successors that were there leaves the successors of all nodes as they are. -/
theorem outgoing_insert (hg : g'.vertices = g.vertices.insert id v)
    (hv : v.successors = g.outgoing id) (x : κ) : g'.outgoing x = g.outgoing x := by
  by_cases hx : x = id
  · subst hx
    rw [← hv]
    refine outgoing_of_getElem? ?_
    rw [hg, ExtTreeMap.getElem?_insert_self]
  · refine outgoing_congr ?_
    rw [hg, KeyMap.getElem?_insert_of_ne hx]

theorem incoming_insert (hg : g'.vertices = g.vertices.insert id v)
    (hv : v.predecessors = g.incoming id) (x : κ) : g'.incoming x = g.incoming x := by
  by_cases hx : x = id
  · subst hx
    rw [← hv]
    refine incoming_of_getElem? ?_
    rw [hg, ExtTreeMap.getElem?_insert_self]
  · refine incoming_congr ?_
    rw [hg, KeyMap.getElem?_insert_of_ne hx]

end Insert

/-- All indexes agree with the map of edges. -/
structure Indexed (g : Digraph κ ν ε) : Prop where
  mem_outgoing (a b : κ) : b ∈ g.outgoing a ↔ (a, b) ∈ g.edges
  mem_incoming (a b : κ) : a ∈ g.incoming b ↔ (a, b) ∈ g.edges
  ends_mem (a b : κ) : (a, b) ∈ g.edges → a ∈ g.vertices ∧ b ∈ g.vertices
  mem_sources (id : κ) : id ∈ g.sources ↔ id ∈ g.vertices ∧ ∀ a, (a, id) ∉ g.edges
  mem_sinks (id : κ) : id ∈ g.sinks ↔ id ∈ g.vertices ∧ ∀ b, (id, b) ∉ g.edges

theorem indexed_empty : (∅ : Digraph κ ν ε).Indexed := by
  constructor <;> simp [outgoing, incoming]

/-! ### Calls that add -/

variable [LawfulEqOrd κ] {g : Digraph κ ν ε}

/-- Another value on a node leaves every index as it is. -/
theorem Indexed.setValue (h : g.Indexed) {id : κ} {v : Vertex κ ν} (hv : g.vertices[id]? = some v)
    (value : ν) :
    ({ g with vertices := g.vertices.insert id { v with value } } : Digraph κ ν ε).Indexed := by
  have hmem : ∀ x, x ∈ g.vertices.insert id { v with value } ↔ x ∈ g.vertices := by
    intro x
    rw [KeyMap.mem_insert_iff, or_iff_right_of_imp]
    intro heq
    subst heq
    exact mem_vertices_of_getElem? hv
  refine ⟨fun a b => ?_, fun a b => ?_, fun a b hab => ?_, fun x => ?_, fun x => ?_⟩
  · rw [outgoing_insert (v := { v with value }) rfl (outgoing_of_getElem? hv).symm]
    exact h.mem_outgoing a b
  · rw [incoming_insert (v := { v with value }) rfl (incoming_of_getElem? hv).symm]
    exact h.mem_incoming a b
  · rw [hmem, hmem]
    exact h.ends_mem a b hab
  · rw [hmem]
    exact h.mem_sources x
  · rw [hmem]
    exact h.mem_sinks x

theorem Indexed.addNode (h : g.Indexed) (id : κ) (value : ν) : (g.addNode id value).1.Indexed := by
  unfold Digraph.addNode
  cases hv : g.vertices[id]? with
  | some v => exact h.setValue hv value
  | none =>
    have hid : id ∉ g.vertices := KeyMap.getElem?_eq_none_iff.1 hv
    have hends : ∀ a b, (a, b) ∈ g.edges → a ≠ id ∧ b ≠ id := by
      intro a b hab
      obtain ⟨ha, hb⟩ := h.ends_mem a b hab
      exact ⟨fun e => hid (e ▸ ha), fun e => hid (e ▸ hb)⟩
    refine ⟨fun a b => ?_, fun a b => ?_, fun a b hab => ?_, fun x => ?_, fun x => ?_⟩
    · rw [outgoing_insert rfl (outgoing_of_notMem hid).symm]
      exact h.mem_outgoing a b
    · rw [incoming_insert rfl (incoming_of_notMem hid).symm]
      exact h.mem_incoming a b
    · obtain ⟨ha, hb⟩ := h.ends_mem a b hab
      exact ⟨KeyMap.mem_insert_iff.2 (Or.inr ha), KeyMap.mem_insert_iff.2 (Or.inr hb)⟩
    · rw [KeySet.mem_insert_iff, KeyMap.mem_insert_iff, h.mem_sources, or_and_right]
      refine or_congr_left (Iff.symm (and_iff_left_of_imp ?_))
      intro heq a hax
      subst heq
      exact (hends a x hax).2 rfl
    · rw [KeySet.mem_insert_iff, KeyMap.mem_insert_iff, h.mem_sinks, or_and_right]
      refine or_congr_left (Iff.symm (and_iff_left_of_imp ?_))
      intro heq b hxb
      subst heq
      exact (hends x b hxb).1 rfl

section AddEdge

variable {g' : Digraph κ ν ε} {a b : κ} {value : ε} {old : Option ε}

omit [LawfulEqOrd κ] in
/-- What an edge that was added changes. -/
theorem addEdge_eq_ok (hg : g.addEdge a b value = .ok (g', old)) :
    a ∈ g.vertices ∧ b ∈ g.vertices ∧
      g' = { vertices := (g.vertices.modify a fun v => { v with successors := v.successors.insert b })
               |>.modify b fun v => { v with predecessors := v.predecessors.insert a }
             edges := g.edges.insert (a, b) value
             sources := g.sources.erase b
             sinks := g.sinks.erase a } := by
  unfold Digraph.addEdge at hg
  cases ha : g.vertices.contains a with
  | false => rw [ha] at hg; nomatch hg
  | true =>
    cases hb : g.vertices.contains b with
    | false => rw [ha, hb] at hg; nomatch hg
    | true =>
      rw [ha, hb] at hg
      injection hg with hg
      exact ⟨ha, hb, (Prod.mk.inj hg).1.symm⟩

theorem mem_outgoing_addEdge (hg : g.addEdge a b value = .ok (g', old)) (x y : κ) :
    y ∈ g'.outgoing x ↔ x = a ∧ y = b ∨ y ∈ g.outgoing x := by
  obtain ⟨ha, -, rfl⟩ := addEdge_eq_ok hg
  obtain ⟨v, hv⟩ := exists_getElem? ha
  have hlast : ∀ m : KeyMap κ (Vertex κ ν), ((m.modify b fun v =>
      { v with predecessors := v.predecessors.insert a })[x]?).map Vertex.successors =
        (m[x]?).map Vertex.successors := by
    intro m
    by_cases hx : x = b
    · rw [hx, ExtTreeMap.getElem?_modify_self, Option.map_map]
      rfl
    · rw [KeyMap.getElem?_modify_of_ne hx]
  rw [outgoing, hlast]
  by_cases hx : x = a
  · rw [hx, ExtTreeMap.getElem?_modify_self, outgoing_of_getElem? hv, hv, eq_self, true_and]
    exact KeySet.mem_insert_iff
  · rw [KeyMap.getElem?_modify_of_ne hx, or_iff_right fun h => hx h.1]
    rfl

theorem mem_incoming_addEdge (hg : g.addEdge a b value = .ok (g', old)) (x y : κ) :
    x ∈ g'.incoming y ↔ x = a ∧ y = b ∨ x ∈ g.incoming y := by
  obtain ⟨-, hb, rfl⟩ := addEdge_eq_ok hg
  obtain ⟨v, hv⟩ := exists_getElem? hb
  have hfirst : ((g.vertices.modify a fun v =>
      { v with successors := v.successors.insert b })[y]?).map Vertex.predecessors =
        (g.vertices[y]?).map Vertex.predecessors := by
    by_cases hy : y = a
    · rw [hy, ExtTreeMap.getElem?_modify_self, Option.map_map]
      rfl
    · rw [KeyMap.getElem?_modify_of_ne hy]
  rw [incoming]
  by_cases hy : y = b
  · subst hy
    rw [hv] at hfirst
    obtain ⟨w, hw, hwv⟩ := Option.map_eq_some_iff.1 hfirst
    rw [ExtTreeMap.getElem?_modify_self, hw, incoming_of_getElem? hv, ← hwv, eq_self, and_true]
    exact KeySet.mem_insert_iff
  · rw [KeyMap.getElem?_modify_of_ne hy, hfirst, or_iff_right fun h => hy h.2]
    rfl

theorem Indexed.addEdge (h : g.Indexed) (hg : g.addEdge a b value = .ok (g', old)) :
    g'.Indexed := by
  have hout := mem_outgoing_addEdge hg
  have hin := mem_incoming_addEdge hg
  obtain ⟨ha, hb, rfl⟩ := addEdge_eq_ok hg
  have hedge : ∀ x y, (x, y) ∈ g.edges.insert (a, b) value ↔ x = a ∧ y = b ∨ (x, y) ∈ g.edges := by
    intro x y
    rw [KeyMap.mem_insert_iff, Prod.mk.injEq]
  refine ⟨fun x y => ?_, fun x y => ?_, fun x y hxy => ?_, fun x => ?_, fun x => ?_⟩
  · rw [hout, hedge, h.mem_outgoing]
  · rw [hin, hedge, h.mem_incoming]
  · rw [ExtTreeMap.mem_modify, ExtTreeMap.mem_modify, ExtTreeMap.mem_modify, ExtTreeMap.mem_modify]
    rcases (hedge x y).1 hxy with ⟨rfl, rfl⟩ | hxy
    · exact ⟨ha, hb⟩
    · exact h.ends_mem x y hxy
  · rw [KeySet.mem_erase_iff, ExtTreeMap.mem_modify, ExtTreeMap.mem_modify, h.mem_sources]
    simp only [hedge, not_or, forall_and]
    constructor
    · intro hsource
      obtain ⟨hx, hmem, hno⟩ := hsource
      exact ⟨hmem, fun _ e => hx e.2, hno⟩
    · intro hsource
      obtain ⟨hmem, hx, hno⟩ := hsource
      exact ⟨fun e => hx a ⟨rfl, e⟩, hmem, hno⟩
  · rw [KeySet.mem_erase_iff, ExtTreeMap.mem_modify, ExtTreeMap.mem_modify, h.mem_sinks]
    simp only [hedge, not_or, forall_and]
    constructor
    · intro hsink
      obtain ⟨hx, hmem, hno⟩ := hsink
      exact ⟨hmem, fun _ e => hx e.1, hno⟩
    · intro hsink
      obtain ⟨hmem, hx, hno⟩ := hsink
      exact ⟨fun e => hx b ⟨e, rfl⟩, hmem, hno⟩

end AddEdge

/-! ### One edge is taken off -/

section Drop

variable (g : Digraph κ ν ε) (a b : κ)

omit [LawfulEqOrd κ]

theorem edges_dropSuccessor : (g.dropSuccessor a b).edges = g.edges := by
  unfold dropSuccessor
  split <;> rfl

theorem sources_dropSuccessor : (g.dropSuccessor a b).sources = g.sources := by
  unfold dropSuccessor
  split <;> rfl

theorem edges_dropPredecessor : (g.dropPredecessor a b).edges = g.edges := by
  unfold dropPredecessor
  split <;> rfl

theorem sinks_dropPredecessor : (g.dropPredecessor a b).sinks = g.sinks := by
  unfold dropPredecessor
  split <;> rfl

theorem dropSuccessor_of_notMem (ha : a ∉ g.vertices) : g.dropSuccessor a b = g := by
  rw [dropSuccessor, KeyMap.getElem?_eq_none_iff.2 ha]

theorem dropPredecessor_of_notMem (hb : b ∉ g.vertices) : g.dropPredecessor a b = g := by
  rw [dropPredecessor, KeyMap.getElem?_eq_none_iff.2 hb]

theorem getElem?_dropSuccessor {v : Vertex κ ν} (hv : g.vertices[a]? = some v) :
    (g.dropSuccessor a b).vertices[a]? = some { v with successors := v.successors.erase b } := by
  rw [dropSuccessor, hv]
  exact ExtTreeMap.getElem?_insert_self

theorem getElem?_dropPredecessor {v : Vertex κ ν} (hv : g.vertices[b]? = some v) :
    (g.dropPredecessor a b).vertices[b]? =
      some { v with predecessors := v.predecessors.erase a } := by
  rw [dropPredecessor, hv]
  exact ExtTreeMap.getElem?_insert_self

variable [LawfulEqOrd κ]

theorem mem_vertices_dropSuccessor (x : κ) :
    x ∈ (g.dropSuccessor a b).vertices ↔ x ∈ g.vertices := by
  cases hv : g.vertices[a]? with
  | none => rw [dropSuccessor_of_notMem g a b (KeyMap.getElem?_eq_none_iff.1 hv)]
  | some v =>
    rw [dropSuccessor, hv]
    refine KeyMap.mem_insert_iff.trans (or_iff_right_of_imp ?_)
    intro heq
    subst heq
    exact mem_vertices_of_getElem? hv

theorem mem_vertices_dropPredecessor (x : κ) :
    x ∈ (g.dropPredecessor a b).vertices ↔ x ∈ g.vertices := by
  cases hv : g.vertices[b]? with
  | none => rw [dropPredecessor_of_notMem g a b (KeyMap.getElem?_eq_none_iff.1 hv)]
  | some v =>
    rw [dropPredecessor, hv]
    refine KeyMap.mem_insert_iff.trans (or_iff_right_of_imp ?_)
    intro heq
    subst heq
    exact mem_vertices_of_getElem? hv

theorem incoming_dropSuccessor (x : κ) : (g.dropSuccessor a b).incoming x = g.incoming x := by
  cases hv : g.vertices[a]? with
  | none => rw [dropSuccessor_of_notMem g a b (KeyMap.getElem?_eq_none_iff.1 hv)]
  | some v =>
    rw [dropSuccessor, hv]
    exact incoming_insert (v := { v with successors := v.successors.erase b }) rfl
      (incoming_of_getElem? hv).symm x

theorem outgoing_dropPredecessor (x : κ) :
    (g.dropPredecessor a b).outgoing x = g.outgoing x := by
  cases hv : g.vertices[b]? with
  | none => rw [dropPredecessor_of_notMem g a b (KeyMap.getElem?_eq_none_iff.1 hv)]
  | some v =>
    rw [dropPredecessor, hv]
    exact outgoing_insert (v := { v with predecessors := v.predecessors.erase a }) rfl
      (outgoing_of_getElem? hv).symm x

theorem mem_outgoing_dropSuccessor (x y : κ) :
    y ∈ (g.dropSuccessor a b).outgoing x ↔ y ∈ g.outgoing x ∧ ¬(x = a ∧ y = b) := by
  cases hv : g.vertices[a]? with
  | none =>
    have ha : a ∉ g.vertices := KeyMap.getElem?_eq_none_iff.1 hv
    rw [dropSuccessor_of_notMem g a b ha, iff_self_and]
    intro hy hxy
    obtain ⟨rfl, rfl⟩ := hxy
    rw [outgoing_of_notMem ha] at hy
    exact ExtTreeSet.not_mem_empty hy
  | some v =>
    by_cases hx : x = a
    · subst hx
      rw [outgoing_of_getElem? (getElem?_dropSuccessor g x b hv), outgoing_of_getElem? hv, eq_self,
        true_and, and_comm]
      exact KeySet.mem_erase_iff
    · rw [dropSuccessor, hv, outgoing_congr (KeyMap.getElem?_insert_of_ne hx), iff_self_and]
      exact fun _ h => hx h.1

theorem mem_incoming_dropPredecessor (x y : κ) :
    x ∈ (g.dropPredecessor a b).incoming y ↔ x ∈ g.incoming y ∧ ¬(x = a ∧ y = b) := by
  cases hv : g.vertices[b]? with
  | none =>
    have hb : b ∉ g.vertices := KeyMap.getElem?_eq_none_iff.1 hv
    rw [dropPredecessor_of_notMem g a b hb, iff_self_and]
    intro hx hxy
    obtain ⟨rfl, rfl⟩ := hxy
    rw [incoming_of_notMem hb] at hx
    exact ExtTreeSet.not_mem_empty hx
  | some v =>
    by_cases hy : y = b
    · subst hy
      rw [incoming_of_getElem? (getElem?_dropPredecessor g a y hv), incoming_of_getElem? hv,
        eq_self, and_true, and_comm]
      exact KeySet.mem_erase_iff
    · rw [dropPredecessor, hv, incoming_congr (KeyMap.getElem?_insert_of_ne hy), iff_self_and]
      exact fun _ h => hy h.2

/-- A node becomes a sink when the last edge is taken off it. -/
theorem mem_sinks_dropSuccessor (x : κ) : x ∈ (g.dropSuccessor a b).sinks ↔
    x ∈ g.sinks ∨ x = a ∧ a ∈ g.vertices ∧ ∀ y, y ∉ (g.dropSuccessor a b).outgoing a := by
  cases hv : g.vertices[a]? with
  | none =>
    have ha : a ∉ g.vertices := KeyMap.getElem?_eq_none_iff.1 hv
    rw [dropSuccessor_of_notMem g a b ha, or_iff_left fun h => ha h.2.1]
  | some v =>
    have ha : a ∈ g.vertices := mem_vertices_of_getElem? hv
    have hout : (g.dropSuccessor a b).outgoing a = v.successors.erase b :=
      outgoing_of_getElem? (getElem?_dropSuccessor g a b hv)
    rw [hout, ← ExtTreeSet.eq_empty_iff_forall_not_mem, ← ExtTreeSet.isEmpty_iff, dropSuccessor, hv]
    show x ∈ (if (v.successors.erase b).isEmpty then g.sinks.insert a else g.sinks) ↔ _
    by_cases hempty : (v.successors.erase b).isEmpty = true
    · rw [if_pos hempty, KeySet.mem_insert_iff, or_comm, and_iff_left ⟨ha, hempty⟩]
    · rw [if_neg hempty, or_iff_left fun h => hempty h.2.2]

/-- A node becomes a source when the last edge to it is taken off. -/
theorem mem_sources_dropPredecessor (x : κ) : x ∈ (g.dropPredecessor a b).sources ↔
    x ∈ g.sources ∨ x = b ∧ b ∈ g.vertices ∧ ∀ y, y ∉ (g.dropPredecessor a b).incoming b := by
  cases hv : g.vertices[b]? with
  | none =>
    have hb : b ∉ g.vertices := KeyMap.getElem?_eq_none_iff.1 hv
    rw [dropPredecessor_of_notMem g a b hb, or_iff_left fun h => hb h.2.1]
  | some v =>
    have hb : b ∈ g.vertices := mem_vertices_of_getElem? hv
    have hin : (g.dropPredecessor a b).incoming b = v.predecessors.erase a :=
      incoming_of_getElem? (getElem?_dropPredecessor g a b hv)
    rw [hin, ← ExtTreeSet.eq_empty_iff_forall_not_mem, ← ExtTreeSet.isEmpty_iff, dropPredecessor,
      hv]
    show x ∈ (if (v.predecessors.erase a).isEmpty then g.sources.insert b else g.sources) ↔ _
    by_cases hempty : (v.predecessors.erase a).isEmpty = true
    · rw [if_pos hempty, KeySet.mem_insert_iff, or_comm, and_iff_left ⟨hb, hempty⟩]
    · rw [if_neg hempty, or_iff_left fun h => hempty h.2.2]

theorem mem_edges_dropEdge (x y : κ) :
    (x, y) ∈ (g.dropEdge a b).edges ↔ (x, y) ∈ g.edges ∧ ¬(x = a ∧ y = b) := by
  rw [dropEdge, KeyMap.mem_erase_iff, ne_eq, Prod.mk.injEq, and_comm]

end Drop

/-! ### All edges of a node are taken off -/

/-- The edges to a node from the nodes of a list are taken off, one after the other. -/
def dropIncoming (g : Digraph κ ν ε) (id : κ) (l : List κ) : Digraph κ ν ε :=
  l.foldl (fun g a => (g.dropEdge a id).dropSuccessor a id) g

/-- The edges from a node to the nodes of a list are taken off, one after the other. -/
def dropOutgoing (g : Digraph κ ν ε) (id : κ) (l : List κ) : Digraph κ ν ε :=
  l.foldl (fun g b => (g.dropEdge id b).dropPredecessor id b) g

section DropMany

variable (g : Digraph κ ν ε) (id : κ) (l : List κ)

omit [LawfulEqOrd κ]

theorem dropIncoming_cons (a : κ) :
    g.dropIncoming id (a :: l) = ((g.dropEdge a id).dropSuccessor a id).dropIncoming id l := rfl

theorem dropOutgoing_cons (b : κ) :
    g.dropOutgoing id (b :: l) = ((g.dropEdge id b).dropPredecessor id b).dropOutgoing id l := rfl

theorem sources_dropIncoming : (g.dropIncoming id l).sources = g.sources := by
  induction l generalizing g with
  | nil => rfl
  | cons a l ih =>
    rw [dropIncoming_cons, ih, sources_dropSuccessor]
    rfl

theorem sinks_dropOutgoing : (g.dropOutgoing id l).sinks = g.sinks := by
  induction l generalizing g with
  | nil => rfl
  | cons b l ih =>
    rw [dropOutgoing_cons, ih, sinks_dropPredecessor]
    rfl

variable [LawfulEqOrd κ]

theorem mem_vertices_dropIncoming (x : κ) :
    x ∈ (g.dropIncoming id l).vertices ↔ x ∈ g.vertices := by
  induction l generalizing g with
  | nil => rfl
  | cons a l ih =>
    rw [dropIncoming_cons, ih, mem_vertices_dropSuccessor]
    rfl

theorem mem_vertices_dropOutgoing (x : κ) :
    x ∈ (g.dropOutgoing id l).vertices ↔ x ∈ g.vertices := by
  induction l generalizing g with
  | nil => rfl
  | cons b l ih =>
    rw [dropOutgoing_cons, ih, mem_vertices_dropPredecessor]
    rfl

theorem mem_edges_dropIncoming (x y : κ) :
    (x, y) ∈ (g.dropIncoming id l).edges ↔ (x, y) ∈ g.edges ∧ ¬(x ∈ l ∧ y = id) := by
  induction l generalizing g with
  | nil => exact (and_iff_left fun h => List.not_mem_nil h.1).symm
  | cons a l ih =>
    rw [dropIncoming_cons, ih, edges_dropSuccessor, mem_edges_dropEdge, and_assoc, ← not_or,
      ← or_and_right, ← List.mem_cons]

theorem mem_edges_dropOutgoing (x y : κ) :
    (x, y) ∈ (g.dropOutgoing id l).edges ↔ (x, y) ∈ g.edges ∧ ¬(x = id ∧ y ∈ l) := by
  induction l generalizing g with
  | nil => exact (and_iff_left fun h => List.not_mem_nil h.2).symm
  | cons b l ih =>
    rw [dropOutgoing_cons, ih, edges_dropPredecessor, mem_edges_dropEdge, and_assoc, ← not_or,
      ← and_or_left, ← List.mem_cons]

theorem mem_outgoing_dropIncoming (x y : κ) :
    y ∈ (g.dropIncoming id l).outgoing x ↔ y ∈ g.outgoing x ∧ ¬(x ∈ l ∧ y = id) := by
  induction l generalizing g with
  | nil => exact (and_iff_left fun h => List.not_mem_nil h.1).symm
  | cons a l ih =>
    rw [dropIncoming_cons, ih, mem_outgoing_dropSuccessor, and_assoc, ← not_or, ← or_and_right,
      ← List.mem_cons]
    rfl

theorem mem_incoming_dropOutgoing (x y : κ) :
    x ∈ (g.dropOutgoing id l).incoming y ↔ x ∈ g.incoming y ∧ ¬(x = id ∧ y ∈ l) := by
  induction l generalizing g with
  | nil => exact (and_iff_left fun h => List.not_mem_nil h.2).symm
  | cons b l ih =>
    rw [dropOutgoing_cons, ih, mem_incoming_dropPredecessor, and_assoc, ← not_or, ← and_or_left,
      ← List.mem_cons]
    rfl

theorem incoming_dropIncoming (x : κ) : (g.dropIncoming id l).incoming x = g.incoming x := by
  induction l generalizing g with
  | nil => rfl
  | cons a l ih =>
    rw [dropIncoming_cons, ih, incoming_dropSuccessor]
    rfl

theorem outgoing_dropOutgoing (x : κ) : (g.dropOutgoing id l).outgoing x = g.outgoing x := by
  induction l generalizing g with
  | nil => rfl
  | cons b l ih =>
    rw [dropOutgoing_cons, ih, outgoing_dropPredecessor]
    rfl

/-- Of the nodes whose edge was taken off, those without another edge become sinks. -/
theorem mem_sinks_dropIncoming (x : κ) : x ∈ (g.dropIncoming id l).sinks ↔
    x ∈ g.sinks ∨ x ∈ l ∧ x ∈ g.vertices ∧ ∀ y, y ∉ (g.dropIncoming id l).outgoing x := by
  induction l generalizing g with
  | nil => exact (or_iff_left fun h => List.not_mem_nil h.1).symm
  | cons a l ih =>
    let g₁ := (g.dropEdge a id).dropSuccessor a id
    -- the rest of the list takes nothing more off `a`
    have hlast : (∀ y, y ∉ g₁.outgoing a) ↔ ∀ y, y ∉ (g₁.dropIncoming id l).outgoing a := by
      refine forall_congr' fun y => not_congr ?_
      rw [mem_outgoing_dropIncoming, iff_self_and, mem_outgoing_dropSuccessor]
      exact fun h e => h.2 ⟨rfl, e.2⟩
    rw [dropIncoming_cons, ih, mem_sinks_dropSuccessor, mem_vertices_dropSuccessor, hlast]
    show (x ∈ g.sinks ∨ x = a ∧ a ∈ g.vertices ∧ _) ∨ x ∈ l ∧ x ∈ g.vertices ∧ _ ↔ _
    rw [or_assoc, List.mem_cons, or_and_right]
    refine or_congr_right (or_congr_left ?_)
    exact and_congr_right fun hx => by rw [hx]

/-- Of the nodes to which an edge was taken off, those without another one become sources. -/
theorem mem_sources_dropOutgoing (x : κ) : x ∈ (g.dropOutgoing id l).sources ↔
    x ∈ g.sources ∨ x ∈ l ∧ x ∈ g.vertices ∧ ∀ y, y ∉ (g.dropOutgoing id l).incoming x := by
  induction l generalizing g with
  | nil => exact (or_iff_left fun h => List.not_mem_nil h.1).symm
  | cons b l ih =>
    let g₁ := (g.dropEdge id b).dropPredecessor id b
    have hlast : (∀ y, y ∉ g₁.incoming b) ↔ ∀ y, y ∉ (g₁.dropOutgoing id l).incoming b := by
      refine forall_congr' fun y => not_congr ?_
      rw [mem_incoming_dropOutgoing, iff_self_and, mem_incoming_dropPredecessor]
      exact fun h e => h.2 ⟨e.1, rfl⟩
    rw [dropOutgoing_cons, ih, mem_sources_dropPredecessor, mem_vertices_dropPredecessor, hlast]
    show (x ∈ g.sources ∨ x = b ∧ b ∈ g.vertices ∧ _) ∨ x ∈ l ∧ x ∈ g.vertices ∧ _ ↔ _
    rw [or_assoc, List.mem_cons, or_and_right]
    refine or_congr_right (or_congr_left ?_)
    exact and_congr_right fun hx => by rw [hx]

end DropMany

/-! ### A node is taken out -/

/-- The graph without a node and without the edges to and from the neighbours that its vertex
lists. -/
def detach (g : Digraph κ ν ε) (id : κ) (v : Vertex κ ν) : Digraph κ ν ε :=
  (dropIncoming { g with vertices := g.vertices.erase id } id v.predecessors.toList).dropOutgoing id
    v.successors.toList

section Detach

variable {id : κ} {v : Vertex κ ν}

theorem mem_vertices_detach (x : κ) : x ∈ (g.detach id v).vertices ↔ x ≠ id ∧ x ∈ g.vertices := by
  rw [detach, mem_vertices_dropOutgoing, mem_vertices_dropIncoming]
  exact KeyMap.mem_erase_iff

/-- The listed neighbours are enough to find all edges of a node, its own neighbour or not. -/
theorem mem_edges_detach (h : g.Indexed) (hv : g.vertices[id]? = some v) (x y : κ) :
    (x, y) ∈ (g.detach id v).edges ↔ (x, y) ∈ g.edges ∧ x ≠ id ∧ y ≠ id := by
  have hpred : ∀ a, a ∈ v.predecessors ↔ (a, id) ∈ g.edges := by
    intro a
    rw [← incoming_of_getElem? hv, h.mem_incoming]
  have hsucc : ∀ b, b ∈ v.successors ↔ (id, b) ∈ g.edges := by
    intro b
    rw [← outgoing_of_getElem? hv, h.mem_outgoing]
  rw [detach, mem_edges_dropOutgoing, mem_edges_dropIncoming, ExtTreeSet.mem_toList,
    ExtTreeSet.mem_toList, hpred, hsucc, and_assoc]
  refine and_congr_right fun hxy => ?_
  constructor
  · intro hkept
    obtain ⟨hy, hx⟩ := hkept
    exact ⟨fun e => hx ⟨e, e ▸ hxy⟩, fun e => hy ⟨e ▸ hxy, e⟩⟩
  · intro hkept
    obtain ⟨hx, hy⟩ := hkept
    exact ⟨fun e => hy e.2, fun e => hx e.1⟩

theorem mem_outgoing_detach (h : g.Indexed) (hv : g.vertices[id]? = some v) (x y : κ) :
    y ∈ (g.detach id v).outgoing x ↔ (x, y) ∈ (g.detach id v).edges := by
  by_cases hx : x = id
  · subst hx
    have hgone : x ∉ (g.detach x v).vertices := fun h => ((mem_vertices_detach x).1 h).1 rfl
    rw [outgoing_of_notMem hgone, mem_edges_detach h hv]
    exact iff_of_false ExtTreeSet.not_mem_empty fun h => h.2.1 rfl
  · have hid : ¬(x = id ∧ y ∈ v.successors.toList) := fun e => hx e.1
    rw [detach, outgoing_dropOutgoing, mem_outgoing_dropIncoming, mem_edges_dropOutgoing,
      mem_edges_dropIncoming, and_iff_left hid, outgoing_congr (KeyMap.getElem?_erase_of_ne hx),
      h.mem_outgoing]

theorem mem_incoming_detach (h : g.Indexed) (hv : g.vertices[id]? = some v) (x y : κ) :
    x ∈ (g.detach id v).incoming y ↔ (x, y) ∈ (g.detach id v).edges := by
  by_cases hy : y = id
  · subst hy
    have hgone : y ∉ (g.detach y v).vertices := fun h => ((mem_vertices_detach y).1 h).1 rfl
    rw [incoming_of_notMem hgone, mem_edges_detach h hv]
    exact iff_of_false ExtTreeSet.not_mem_empty fun h => h.2.2 rfl
  · have hid : ¬(x ∈ v.predecessors.toList ∧ y = id) := fun e => hy e.2
    rw [detach, mem_incoming_dropOutgoing, incoming_dropIncoming, mem_edges_dropOutgoing,
      mem_edges_dropIncoming, and_iff_left hid, incoming_congr (KeyMap.getElem?_erase_of_ne hy),
      h.mem_incoming]

theorem mem_sources_detach (h : g.Indexed) (hv : g.vertices[id]? = some v) {x : κ} (hx : x ≠ id) :
    x ∈ (g.detach id v).sources ↔ x ∈ g.vertices ∧ ∀ a, (a, x) ∉ (g.detach id v).edges := by
  have hsources : x ∈ (g.detach id v).sources ↔ x ∈ g.sources ∨
      x ∈ v.successors ∧ x ∈ g.vertices ∧ ∀ a, (a, x) ∉ (g.detach id v).edges := by
    simp only [← mem_incoming_detach h hv]
    rw [detach, mem_sources_dropOutgoing, sources_dropIncoming, mem_vertices_dropIncoming,
      ExtTreeSet.mem_toList, KeyMap.mem_erase_iff, and_iff_right hx]
  rw [hsources, h.mem_sources]
  constructor
  · intro hsource
    rcases hsource with ⟨hmem, hno⟩ | ⟨-, hmem, hno⟩
    · exact ⟨hmem, fun a hax => hno a ((mem_edges_detach h hv a x).1 hax).1⟩
    · exact ⟨hmem, hno⟩
  · intro hsource
    obtain ⟨hmem, hno⟩ := hsource
    by_cases hid : (id, x) ∈ g.edges
    · rw [← h.mem_outgoing, outgoing_of_getElem? hv] at hid
      exact Or.inr ⟨hid, hmem, hno⟩
    · refine Or.inl ⟨hmem, fun a hax => hno a ((mem_edges_detach h hv a x).2 ⟨hax, ?_, hx⟩)⟩
      intro heq
      subst heq
      exact hid hax

theorem mem_sinks_detach (h : g.Indexed) (hv : g.vertices[id]? = some v) {x : κ} (hx : x ≠ id) :
    x ∈ (g.detach id v).sinks ↔ x ∈ g.vertices ∧ ∀ b, (x, b) ∉ (g.detach id v).edges := by
  have hsinks : x ∈ (g.detach id v).sinks ↔ x ∈ g.sinks ∨
      x ∈ v.predecessors ∧ x ∈ g.vertices ∧ ∀ b, (x, b) ∉ (g.detach id v).edges := by
    simp only [← mem_outgoing_detach h hv]
    simp only [detach, outgoing_dropOutgoing]
    rw [sinks_dropOutgoing, mem_sinks_dropIncoming, ExtTreeSet.mem_toList, KeyMap.mem_erase_iff,
      and_iff_right hx]
  rw [hsinks, h.mem_sinks]
  constructor
  · intro hsink
    rcases hsink with ⟨hmem, hno⟩ | ⟨-, hmem, hno⟩
    · exact ⟨hmem, fun b hxb => hno b ((mem_edges_detach h hv x b).1 hxb).1⟩
    · exact ⟨hmem, hno⟩
  · intro hsink
    obtain ⟨hmem, hno⟩ := hsink
    by_cases hid : (x, id) ∈ g.edges
    · rw [← h.mem_incoming, incoming_of_getElem? hv] at hid
      exact Or.inr ⟨hid, hmem, hno⟩
    · refine Or.inl ⟨hmem, fun b hxb => hno b ((mem_edges_detach h hv x b).2 ⟨hxb, hx, ?_⟩)⟩
      intro heq
      subst heq
      exact hid hxb

end Detach

/-! ### Calls that remove -/

omit [LawfulEqOrd κ] in
theorem removeNode_eq_ok {g' : Digraph κ ν ε} {id : κ} {old : ν}
    (hg : g.removeNode id = .ok (g', old)) : ∃ v, g.vertices[id]? = some v ∧
      g' = { g.detach id v with
        sources := (g.detach id v).sources.erase id
        sinks := (g.detach id v).sinks.erase id } := by
  unfold Digraph.removeNode at hg
  cases hv : g.vertices[id]? with
  | none =>
    rw [hv] at hg
    nomatch hg
  | some v =>
    rw [hv] at hg
    injection hg with hg
    exact ⟨v, rfl, (Prod.mk.inj hg).1.symm⟩

theorem Indexed.removeNode (h : g.Indexed) {g' : Digraph κ ν ε} {id : κ} {old : ν}
    (hg : g.removeNode id = .ok (g', old)) : g'.Indexed := by
  obtain ⟨v, hv, rfl⟩ := removeNode_eq_ok hg
  refine ⟨mem_outgoing_detach h hv, mem_incoming_detach h hv, fun a b hab => ?_, fun x => ?_,
    fun x => ?_⟩
  · obtain ⟨hab, ha, hb⟩ := (mem_edges_detach h hv a b).1 hab
    obtain ⟨hamem, hbmem⟩ := h.ends_mem a b hab
    exact ⟨(mem_vertices_detach a).2 ⟨ha, hamem⟩, (mem_vertices_detach b).2 ⟨hb, hbmem⟩⟩
  · rw [KeySet.mem_erase_iff, mem_vertices_detach, and_assoc]
    exact and_congr_right (mem_sources_detach h hv)
  · rw [KeySet.mem_erase_iff, mem_vertices_detach, and_assoc]
    exact and_congr_right (mem_sinks_detach h hv)

omit [LawfulEqOrd κ] in
theorem removeEdge_eq_ok {g' : Digraph κ ν ε} {a b : κ} {old : ε}
    (hg : g.removeEdge a b = .ok (g', old)) : (a, b) ∈ g.edges ∧
      g' = ((g.dropEdge a b).dropSuccessor a b).dropPredecessor a b := by
  unfold Digraph.removeEdge at hg
  cases hv : g.edges[(a, b)]? with
  | none =>
    rw [hv] at hg
    nomatch hg
  | some value =>
    rw [hv] at hg
    injection hg with hg
    refine ⟨?_, (Prod.mk.inj hg).1.symm⟩
    rw [ExtTreeMap.mem_iff_isSome_getElem?, hv]
    rfl

theorem Indexed.removeEdge (h : g.Indexed) {g' : Digraph κ ν ε} {a b : κ} {old : ε}
    (hg : g.removeEdge a b = .ok (g', old)) : g'.Indexed := by
  obtain ⟨hmem, rfl⟩ := removeEdge_eq_ok hg
  obtain ⟨ha, hb⟩ := h.ends_mem a b hmem
  let g₁ := g.dropEdge a b
  let g' := (g₁.dropSuccessor a b).dropPredecessor a b
  have hverts : ∀ x, x ∈ g'.vertices ↔ x ∈ g.vertices := by
    intro x
    rw [mem_vertices_dropPredecessor, mem_vertices_dropSuccessor]
    rfl
  have hedges : ∀ x y, (x, y) ∈ g'.edges ↔ (x, y) ∈ g.edges ∧ ¬(x = a ∧ y = b) := by
    intro x y
    rw [edges_dropPredecessor, edges_dropSuccessor, mem_edges_dropEdge]
  have hout : ∀ x y, y ∈ g'.outgoing x ↔ (x, y) ∈ g'.edges := by
    intro x y
    rw [outgoing_dropPredecessor, mem_outgoing_dropSuccessor, hedges, ← h.mem_outgoing]
    rfl
  have hin : ∀ x y, x ∈ g'.incoming y ↔ (x, y) ∈ g'.edges := by
    intro x y
    rw [mem_incoming_dropPredecessor, incoming_dropSuccessor, hedges, ← h.mem_incoming]
    rfl
  have hsub : ∀ x y, (x, y) ∈ g'.edges → (x, y) ∈ g.edges := fun x y hxy => ((hedges x y).1 hxy).1
  refine ⟨hout, hin, fun x y hxy => ?_, fun x => ?_, fun x => ?_⟩
  · rw [hverts, hverts]
    exact h.ends_mem x y (hsub x y hxy)
  · have hsources : x ∈ g'.sources ↔ x ∈ g.sources ∨ x = b ∧ ∀ y, (y, b) ∉ g'.edges := by
      simp only [← hin]
      rw [mem_sources_dropPredecessor, sources_dropSuccessor, mem_vertices_dropSuccessor]
      exact or_congr_right (and_congr_right fun _ => and_iff_right hb)
    rw [hsources, hverts, h.mem_sources]
    constructor
    · intro hsource
      rcases hsource with ⟨hx, hno⟩ | ⟨rfl, hno⟩
      · exact ⟨hx, fun y hy => hno y (hsub y x hy)⟩
      · exact ⟨hb, hno⟩
    · intro hsource
      obtain ⟨hx, hno⟩ := hsource
      by_cases hxb : x = b
      · subst hxb
        exact Or.inr ⟨rfl, hno⟩
      · exact Or.inl ⟨hx, fun y hy => hno y ((hedges y x).2 ⟨hy, fun e => hxb e.2⟩)⟩
  · have hsinks : x ∈ g'.sinks ↔ x ∈ g.sinks ∨ x = a ∧ ∀ y, (a, y) ∉ g'.edges := by
      simp only [← hout]
      rw [sinks_dropPredecessor, mem_sinks_dropSuccessor]
      simp only [g', outgoing_dropPredecessor]
      exact or_congr_right (and_congr_right fun _ => and_iff_right ha)
    rw [hsinks, hverts, h.mem_sinks]
    constructor
    · intro hsink
      rcases hsink with ⟨hx, hno⟩ | ⟨rfl, hno⟩
      · exact ⟨hx, fun y hy => hno y (hsub x y hy)⟩
      · exact ⟨ha, hno⟩
    · intro hsink
      obtain ⟨hx, hno⟩ := hsink
      by_cases hxa : x = a
      · subst hxa
        exact Or.inr ⟨rfl, hno⟩
      · exact Or.inl ⟨hx, fun y hy => hno y ((hedges x y).2 ⟨hy, fun e => hxa e.1⟩)⟩

theorem Indexed.modifyNode (h : g.Indexed) {g' : Digraph κ ν ε} {id : κ} {f : ν → ν} {new : ν}
    (hg : g.modifyNode id f = .ok (g', new)) : g'.Indexed := by
  unfold Digraph.modifyNode at hg
  cases hv : g.vertices[id]? with
  | none =>
    rw [hv] at hg
    nomatch hg
  | some v =>
    rw [hv] at hg
    injection hg with hg
    obtain ⟨rfl, -⟩ := Prod.mk.inj hg
    exact h.setValue hv (f v.value)

/-! ### Any sequence of calls -/

/-- A call that changes a graph. -/
inductive Change (κ ν ε : Type)
  | addNode (id : κ) (value : ν)
  | addEdge (a b : κ) (value : ε)
  | removeNode (id : κ)
  | removeEdge (a b : κ)
  | modifyNode (id : κ) (f : ν → ν)

/-- The graph that a call leaves behind; a refused call leaves it as it was. -/
def left {α : Type} (g : Digraph κ ν ε) :
    Except (Error κ) (Digraph κ ν ε × α) → Digraph κ ν ε
  | .ok (g', _) => g'
  | .error _ => g

/-- The graph after a call. -/
def change (g : Digraph κ ν ε) : Change κ ν ε → Digraph κ ν ε
  | .addNode id value => (g.addNode id value).1
  | .addEdge a b value => g.left (g.addEdge a b value)
  | .removeNode id => g.left (g.removeNode id)
  | .removeEdge a b => g.left (g.removeEdge a b)
  | .modifyNode id f => g.left (g.modifyNode id f)

/-- The graph after some calls, from the empty one. -/
def after (cs : List (Change κ ν ε)) : Digraph κ ν ε :=
  cs.foldl change ∅

omit [TransOrd κ] [LawfulEqOrd κ] in
theorem left_induction {α : Type} {P : Digraph κ ν ε → Prop} (hg : P g)
    (r : Except (Error κ) (Digraph κ ν ε × α)) (h : ∀ g' a, r = .ok (g', a) → P g') :
    P (g.left r) := by
  cases r with
  | error e => exact hg
  | ok p => exact h p.1 p.2 rfl

/-- One call keeps the indexes in agreement, whether it is refused or not. -/
theorem Indexed.change (h : g.Indexed) (c : Change κ ν ε) : (g.change c).Indexed := by
  cases c with
  | addNode id value => exact h.addNode id value
  | addEdge a b value => exact left_induction h _ fun _ _ hg => h.addEdge hg
  | removeNode id => exact left_induction h _ fun _ _ hg => h.removeNode hg
  | removeEdge a b => exact left_induction h _ fun _ _ hg => h.removeEdge hg
  | modifyNode id f => exact left_induction h _ fun _ _ hg => h.modifyNode hg

theorem Indexed.foldl_change (h : g.Indexed) (cs : List (Change κ ν ε)) :
    (cs.foldl Digraph.change g).Indexed := by
  induction cs generalizing g with
  | nil => exact h
  | cons c cs ih => exact ih (h.change c)

theorem indexed_after (cs : List (Change κ ν ε)) : (after cs).Indexed :=
  indexed_empty.foldl_change cs

/-- After any calls, refused ones among them, the map of edges, the successors and the predecessors
of the nodes, the sources and the sinks say the same of the graph. -/
theorem indexes_agree (cs : List (Change κ ν ε)) :
    (∀ a b, (a, b) ∈ (after cs).edges ↔ b ∈ (after cs).outgoing a) ∧
    (∀ a b, (a, b) ∈ (after cs).edges ↔ a ∈ (after cs).incoming b) ∧
    (∀ a b, (a, b) ∈ (after cs).edges → a ∈ (after cs).vertices ∧ b ∈ (after cs).vertices) ∧
    (∀ id, id ∈ (after cs).sources ↔
      id ∈ (after cs).vertices ∧ ∀ a, (a, id) ∉ (after cs).edges) ∧
    (∀ id, id ∈ (after cs).sinks ↔
      id ∈ (after cs).vertices ∧ ∀ b, (id, b) ∉ (after cs).edges) := by
  have h : (after cs).Indexed := indexed_after cs
  exact ⟨fun a b => (h.mem_outgoing a b).symm, fun a b => (h.mem_incoming a b).symm, h.ends_mem,
    h.mem_sources, h.mem_sinks⟩

/-- A node with a loop is removed, an edge and a node that are not there are named, and the last
edge of a node goes with its other end. -/
def loopRemoved : List (Change Nat String Nat) :=
  [.addNode 1 "a", .addNode 2 "b", .addNode 3 "c", .addEdge 1 1 0, .addEdge 1 2 1, .addEdge 3 1 2,
    .addEdge 3 2 3, .addEdge 2 4 4, .removeEdge 2 3, .modifyNode 3 (· ++ "!"), .removeNode 1]

theorem indexes_agree_loopRemoved :
    (3 ∈ (after loopRemoved).sources ∧ ∀ a, (a, 3) ∉ (after loopRemoved).edges) ∧
    (2 ∈ (after loopRemoved).sinks ∧ ∀ b, (2, b) ∉ (after loopRemoved).edges) ∧
    ((3, 2) ∈ (after loopRemoved).edges ∧ 2 ∈ (after loopRemoved).outgoing 3) := by
  obtain ⟨hout, -, -, hsources, hsinks⟩ := indexes_agree loopRemoved
  have h3 : 3 ∈ (after loopRemoved).sources := by decide +kernel
  have h2 : 2 ∈ (after loopRemoved).sinks := by decide +kernel
  have h32 : (3, 2) ∈ (after loopRemoved).edges := by decide +kernel
  exact ⟨⟨h3, ((hsources 3).1 h3).2⟩, ⟨h2, ((hsinks 2).1 h2).2⟩, h32, (hout 3 2).1 h32⟩

end Requisite.Digraph
