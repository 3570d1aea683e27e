import Requisite.Proofs.Digraph.Indexes

/-!
# The content of a graph

What a graph holds are two finite maps: the values of its nodes and the values of its edges.
`Content` has these and nothing else, and says of every call what it changes there and what it
answers, and of every question what the answer is.  A graph keeps more, and finds the edges of a
node that is removed in its indexes and not in its edges; still it behaves as its content says.

* **`Digraph.edges_detach`** — by way of the indexes exactly the edges of a node are deleted;
* **`Digraph.Indexed.call`** — a call changes the content, and is answered, as the two maps say;
* **`Digraph.Indexed.shows`** — so is every question;
* **`Digraph.Indexed.eq_of_content`** — graphs with the same content are the same;
* **`Digraph.after_refines_content`** — all of this after any sequence of calls.
-/

namespace Requisite.Digraph

open Std

/-! ### Two finite maps -/

/-- The values of the nodes and the values of the edges. -/
@[ext]
structure Content (κ ν ε : Type) [Ord κ] where
  values : KeyMap κ ν
  edges : ExtTreeMap (κ × κ) ε comparePairs

/-- What a call answers: the value that was there before — for a changed node the one that is there
now — or why it is refused. -/
inductive Reply (κ ν ε : Type)
  | node (value : Option ν)
  | edge (value : Option ε)
  | refused (e : Error κ)
  deriving DecidableEq

namespace Content

variable {κ ν ε : Type} [Ord κ] [TransOrd κ]

/-- The content of a graph without nodes. -/
def empty : Content κ ν ε := ⟨∅, ∅⟩

/-- The content without a node and without the edges to and from it. -/
def without (m : Content κ ν ε) (id : κ) : Content κ ν ε where
  values := m.values.erase id
  edges := m.edges.filter fun (a, b) _ => compare a id != .eq && compare b id != .eq

/-- The content after a call. -/
def change (m : Content κ ν ε) : Change κ ν ε → Content κ ν ε
  | .addNode id value => { m with values := m.values.insert id value }
  | .addEdge a b value =>
    if a ∈ m.values ∧ b ∈ m.values then { m with edges := m.edges.insert (a, b) value } else m
  | .removeNode id => if id ∈ m.values then m.without id else m
  | .removeEdge a b => { m with edges := m.edges.erase (a, b) }
  | .modifyNode id f => { m with values := m.values.modify id f }

/-- The answer to a call. -/
def reply (m : Content κ ν ε) : Change κ ν ε → Reply κ ν ε
  | .addNode id _ => .node m.values[id]?
  | .addEdge a b _ =>
    if a ∉ m.values then .refused (.unknownNode a)
    else if b ∉ m.values then .refused (.unknownNode b)
    else .edge m.edges[(a, b)]?
  | .removeNode id =>
    match m.values[id]? with
    | none => .refused (.unknownNode id)
    | some value => .node (some value)
  | .removeEdge a b =>
    match m.edges[(a, b)]? with
    | none => .refused (.unknownEdge a b)
    | some value => .edge (some value)
  | .modifyNode id f =>
    match m.values[id]? with
    | none => .refused (.unknownNode id)
    | some value => .node (some (f value))

/-- The content after some calls, from the empty one. -/
def after (cs : List (Change κ ν ε)) : Content κ ν ε :=
  cs.foldl change empty

/-- The value of a node. -/
def node (m : Content κ ν ε) (id : κ) : Except (Error κ) ν :=
  match m.values[id]? with
  | none => .error (.unknownNode id)
  | some value => .ok value

/-- The value of an edge. -/
def edge (m : Content κ ν ε) (a b : κ) : Except (Error κ) ε :=
  match m.edges[(a, b)]? with
  | none => .error (.unknownEdge a b)
  | some value => .ok value

/-- The nodes with an edge to a node. -/
def predecessors (m : Content κ ν ε) (id : κ) : Except (Error κ) (List κ) :=
  if id ∈ m.values then .ok (m.values.keys.filter fun a => m.edges.contains (a, id))
  else .error (.unknownNode id)

/-- The nodes with an edge from a node. -/
def successors (m : Content κ ν ε) (id : κ) : Except (Error κ) (List κ) :=
  if id ∈ m.values then .ok (m.values.keys.filter fun b => m.edges.contains (id, b))
  else .error (.unknownNode id)

/-- The nodes without an edge to them. -/
def sources (m : Content κ ν ε) : List κ :=
  m.values.keys.filter fun id => m.values.keys.all fun a => !m.edges.contains (a, id)

/-- The nodes without an edge from them. -/
def sinks (m : Content κ ν ε) : List κ :=
  m.values.keys.filter fun id => m.values.keys.all fun b => !m.edges.contains (id, b)

end Content

variable {κ ν ε : Type} [Ord κ] [TransOrd κ]

/-- The values of the nodes of a graph. -/
def values (g : Digraph κ ν ε) : KeyMap κ ν :=
  g.vertices.map fun _ v => v.value

/-- What a graph holds. -/
def content (g : Digraph κ ν ε) : Content κ ν ε :=
  ⟨g.values, g.edges⟩

/-- The answer of a call that may be refused. -/
def Reply.of {α : Type} (answer : α → Reply κ ν ε) :
    Except (Error κ) (Digraph κ ν ε × α) → Reply κ ν ε
  | .ok (_, a) => answer a
  | .error e => .refused e

/-- The answer to a call. -/
def reply (g : Digraph κ ν ε) : Change κ ν ε → Reply κ ν ε
  | .addNode id value => .node (g.addNode id value).2
  | .addEdge a b value => .of .edge (g.addEdge a b value)
  | .removeNode id => .of (fun value => .node (some value)) (g.removeNode id)
  | .removeEdge a b => .of (fun value => .edge (some value)) (g.removeEdge a b)
  | .modifyNode id f => .of (fun value => .node (some value)) (g.modifyNode id f)

/-- Every question to a graph is answered as the content says. -/
structure Shows (g : Digraph κ ν ε) (m : Content κ ν ε) : Prop where
  containsNode (id : κ) : g.containsNode id = m.values.contains id
  containsEdge (a b : κ) : g.containsEdge a b = m.edges.contains (a, b)
  node (id : κ) : g.node id = m.node id
  edge (a b : κ) : g.edge a b = m.edge a b
  nodes : g.nodes = m.values.toList
  edgeList : g.edgeList = m.edges.toList
  predecessors (id : κ) : g.predecessors id = m.predecessors id
  successors (id : κ) : g.successors id = m.successors id
  sources : g.sources.toList = m.sources
  sinks : g.sinks.toList = m.sinks
  size : g.size = m.values.size
  edgeCount : g.edgeCount = m.edges.size
  isEmpty : g.isEmpty = m.values.isEmpty

/-! ### The values of the nodes -/

section Values

variable (g : Digraph κ ν ε)

theorem mem_values {id : κ} : id ∈ g.values ↔ id ∈ g.vertices :=
  ExtTreeMap.mem_map

variable [LawfulEqOrd κ]

theorem getElem?_values (id : κ) : g.values[id]? = (g.vertices[id]?).map Vertex.value :=
  ExtTreeMap.getElem?_map

theorem content_empty : (∅ : Digraph κ ν ε).content = Content.empty := by
  refine Content.ext (ExtTreeMap.ext_getElem? fun id => ?_) rfl
  show (∅ : Digraph κ ν ε).values[id]? = (∅ : KeyMap κ ν)[id]?
  rw [getElem?_values, vertices_empty, ExtTreeMap.getElem?_empty, ExtTreeMap.getElem?_empty]
  rfl

/-- A vertex that is put in another one's place sets the value of its node. -/
theorem values_insert {g' : Digraph κ ν ε} {id : κ} {v : Vertex κ ν}
    (hg : g'.vertices = g.vertices.insert id v) : g'.values = g.values.insert id v.value := by
  apply ExtTreeMap.ext_getElem?
  intro x
  rw [getElem?_values, hg]
  by_cases hx : x = id
  · rw [hx, ExtTreeMap.getElem?_insert_self, ExtTreeMap.getElem?_insert_self]
    rfl
  · rw [KeyMap.getElem?_insert_of_ne hx, KeyMap.getElem?_insert_of_ne hx, getElem?_values]

/-- A vertex that keeps its value leaves all values as they are. -/
theorem values_insert_of_value {g' : Digraph κ ν ε} {id : κ} {v w : Vertex κ ν}
    (hv : g.vertices[id]? = some v) (hg : g'.vertices = g.vertices.insert id w)
    (hw : w.value = v.value) : g'.values = g.values := by
  rw [g.values_insert hg, hw]
  apply ExtTreeMap.ext_getElem?
  intro x
  by_cases hx : x = id
  · rw [hx, ExtTreeMap.getElem?_insert_self, getElem?_values, hv]
    rfl
  · exact KeyMap.getElem?_insert_of_ne hx

theorem values_modify {g' : Digraph κ ν ε} {id : κ} {f : Vertex κ ν → Vertex κ ν}
    (hg : g'.vertices = g.vertices.modify id f) (hf : ∀ v, (f v).value = v.value) :
    g'.values = g.values := by
  apply ExtTreeMap.ext_getElem?
  intro x
  rw [getElem?_values, getElem?_values, hg]
  by_cases hx : x = id
  · rw [hx, ExtTreeMap.getElem?_modify_self, Option.map_map]
    exact congrArg (fun h => (g.vertices[id]?).map h) (funext hf)
  · rw [KeyMap.getElem?_modify_of_ne hx]

theorem values_dropSuccessor (a b : κ) : (g.dropSuccessor a b).values = g.values := by
  cases hv : g.vertices[a]? with
  | none => rw [dropSuccessor_of_notMem g a b (KeyMap.getElem?_eq_none_iff.1 hv)]
  | some v =>
    refine g.values_insert_of_value (w := { v with successors := v.successors.erase b }) hv ?_ rfl
    rw [dropSuccessor, hv]

theorem values_dropPredecessor (a b : κ) : (g.dropPredecessor a b).values = g.values := by
  cases hv : g.vertices[b]? with
  | none => rw [dropPredecessor_of_notMem g a b (KeyMap.getElem?_eq_none_iff.1 hv)]
  | some v =>
    refine g.values_insert_of_value (w := { v with predecessors := v.predecessors.erase a }) hv ?_
      rfl
    rw [dropPredecessor, hv]

theorem values_dropIncoming (id : κ) (l : List κ) : (g.dropIncoming id l).values = g.values := by
  induction l generalizing g with
  | nil => rfl
  | cons a l ih =>
    rw [dropIncoming_cons, ih, values_dropSuccessor]
    rfl

theorem values_dropOutgoing (id : κ) (l : List κ) : (g.dropOutgoing id l).values = g.values := by
  induction l generalizing g with
  | nil => rfl
  | cons b l ih =>
    rw [dropOutgoing_cons, ih, values_dropPredecessor]
    rfl

theorem values_detach (id : κ) (v : Vertex κ ν) :
    (g.detach id v).values = g.values.erase id := by
  rw [detach, values_dropOutgoing, values_dropIncoming]
  apply ExtTreeMap.ext_getElem?
  intro x
  rw [getElem?_values]
  by_cases hx : x = id
  · rw [hx, ExtTreeMap.getElem?_erase_self, ExtTreeMap.getElem?_erase_self]
    rfl
  · rw [KeyMap.getElem?_erase_of_ne hx, KeyMap.getElem?_erase_of_ne hx, getElem?_values]

end Values

/-! ### The edges of a node that is removed -/

section Edges

variable [LawfulEqOrd κ] (g : Digraph κ ν ε)

/-- An edge that is not taken off keeps its value. -/
theorem getElem?_edges_dropIncoming {id : κ} {l : List κ} {x y : κ} (hxy : ¬(x ∈ l ∧ y = id)) :
    (g.dropIncoming id l).edges[(x, y)]? = g.edges[(x, y)]? := by
  induction l generalizing g with
  | nil => rfl
  | cons a l ih =>
    have hrest : ¬(x ∈ l ∧ y = id) := fun h => hxy ⟨List.mem_cons_of_mem a h.1, h.2⟩
    have hne : (x, y) ≠ (a, id) := by
      intro h
      obtain ⟨rfl, rfl⟩ := Prod.mk.inj h
      exact hxy ⟨List.mem_cons_self, rfl⟩
    rw [dropIncoming_cons, ih _ hrest, edges_dropSuccessor]
    exact KeyMap.getElem?_erase_of_ne hne

theorem getElem?_edges_dropOutgoing {id : κ} {l : List κ} {x y : κ} (hxy : ¬(x = id ∧ y ∈ l)) :
    (g.dropOutgoing id l).edges[(x, y)]? = g.edges[(x, y)]? := by
  induction l generalizing g with
  | nil => rfl
  | cons b l ih =>
    have hrest : ¬(x = id ∧ y ∈ l) := fun h => hxy ⟨h.1, List.mem_cons_of_mem b h.2⟩
    have hne : (x, y) ≠ (id, b) := by
      intro h
      obtain ⟨rfl, rfl⟩ := Prod.mk.inj h
      exact hxy ⟨rfl, List.mem_cons_self⟩
    rw [dropOutgoing_cons, ih _ hrest, edges_dropPredecessor]
    exact KeyMap.getElem?_erase_of_ne hne

/-- The edges that are left without a node are those that it is no end of, with their values. -/
theorem edges_detach {g : Digraph κ ν ε} (h : g.Indexed) {id : κ} {v : Vertex κ ν}
    (hv : g.vertices[id]? = some v) : (g.detach id v).edges = (g.content.without id).edges := by
  apply ExtTreeMap.ext_getElem?
  intro p
  obtain ⟨x, y⟩ := p
  have hfilter : (g.content.without id).edges[(x, y)]? =
      (g.edges[(x, y)]?).filter fun _ => compare x id != .eq && compare y id != .eq :=
    ExtTreeMap.getElem?_filter'
  rw [hfilter]
  by_cases hend : x = id ∨ y = id
  · -- an edge of the node: nothing is left of it
    have hgone : (x, y) ∉ (g.detach id v).edges := by
      intro hmem
      obtain ⟨-, hx, hy⟩ := (mem_edges_detach h hv x y).1 hmem
      exact hend.elim hx hy
    have hfalse : (compare x id != .eq && compare y id != .eq) = false := by
      rcases hend with rfl | rfl <;> simp
    rw [KeyMap.getElem?_eq_none_iff.2 hgone, hfalse]
    cases g.edges[(x, y)]? <;> rfl
  · obtain ⟨hx, hy⟩ := not_or.1 hend
    have htrue : (compare x id != .eq && compare y id != .eq) = true := by
      simp [hx, hy]
    have hkeep : (g.detach id v).edges[(x, y)]? = g.edges[(x, y)]? := by
      rw [detach, getElem?_edges_dropOutgoing _ fun e => hx e.1,
        getElem?_edges_dropIncoming _ fun e => hy e.2]
    rw [hkeep, htrue]
    cases g.edges[(x, y)]? <;> rfl

end Edges

/-! ### Calls -/

section Calls

variable [LawfulEqOrd κ] {g : Digraph κ ν ε}

theorem values_addNode (id : κ) (value : ν) :
    (g.addNode id value).1.values = g.values.insert id value := by
  unfold Digraph.addNode
  cases hv : g.vertices[id]? with
  | some v => exact g.values_insert (v := { v with value }) rfl
  | none => exact g.values_insert (v := ⟨value, ∅, ∅⟩) rfl

omit [LawfulEqOrd κ] in
theorem edges_addNode (id : κ) (value : ν) : (g.addNode id value).1.edges = g.edges := by
  unfold Digraph.addNode
  split <;> rfl

theorem content_addEdge {g' : Digraph κ ν ε} {a b : κ} {value : ε} {old : Option ε}
    (hg : g.addEdge a b value = .ok (g', old)) :
    g'.content = { g.content with edges := g.edges.insert (a, b) value } := by
  obtain ⟨-, -, rfl⟩ := addEdge_eq_ok hg
  let g₁ : Digraph κ ν ε := { g with
    vertices := g.vertices.modify a fun v => { v with successors := v.successors.insert b } }
  let g₂ : Digraph κ ν ε := { g₁ with
    vertices := g₁.vertices.modify b fun v => { v with predecessors := v.predecessors.insert a } }
  have hfirst : g₁.values = g.values := g.values_modify rfl fun _ => rfl
  have hsecond : g₂.values = g₁.values := g₁.values_modify rfl fun _ => rfl
  exact Content.ext (hsecond.trans hfirst) rfl

/-- An edge is refused for its first end that is not there. -/
theorem addEdge_cases (a b : κ) (value : ε) :
    (a ∉ g.vertices ∧ g.addEdge a b value = .error (.unknownNode a)) ∨
      (a ∈ g.vertices ∧ b ∉ g.vertices ∧ g.addEdge a b value = .error (.unknownNode b)) ∨
        (a ∈ g.vertices ∧ b ∈ g.vertices ∧ ∃ g', g.addEdge a b value = .ok (g', g.edges[(a, b)]?) ∧
          g'.content = { g.content with edges := g.edges.insert (a, b) value }) := by
  cases ha : g.vertices.contains a with
  | false => exact Or.inl ⟨Bool.eq_false_iff.1 ha, by simp [addEdge, ha]⟩
  | true =>
    cases hb : g.vertices.contains b with
    | false => exact Or.inr (Or.inl ⟨ha, Bool.eq_false_iff.1 hb, by simp [addEdge, ha, hb]⟩)
    | true =>
      have hok : ∃ g', g.addEdge a b value = .ok (g', g.edges[(a, b)]?) := by
        simp [addEdge, ha, hb]
      obtain ⟨g', hg⟩ := hok
      exact Or.inr (Or.inr ⟨ha, hb, g', hg, content_addEdge hg⟩)

theorem removeNode_cases (h : g.Indexed) (id : κ) :
    (g.vertices[id]? = none ∧ g.removeNode id = .error (.unknownNode id)) ∨
      ∃ v g', g.vertices[id]? = some v ∧ g.removeNode id = .ok (g', v.value) ∧
        g'.content = g.content.without id := by
  cases hv : g.vertices[id]? with
  | none => exact Or.inl ⟨rfl, by rw [removeNode, hv]⟩
  | some v =>
    refine Or.inr ⟨v, _, rfl, by rw [removeNode, hv], ?_⟩
    exact Content.ext (g.values_detach id v) (edges_detach h hv)

theorem removeEdge_cases (a b : κ) :
    (g.edges[(a, b)]? = none ∧ g.removeEdge a b = .error (.unknownEdge a b)) ∨
      ∃ value g', g.edges[(a, b)]? = some value ∧ g.removeEdge a b = .ok (g', value) ∧
        g'.content = { g.content with edges := g.edges.erase (a, b) } := by
  cases hv : g.edges[(a, b)]? with
  | none => exact Or.inl ⟨rfl, by rw [removeEdge, hv]⟩
  | some value =>
    refine Or.inr ⟨value, _, rfl, by rw [removeEdge, hv], ?_⟩
    have hvalues :
        (((g.dropEdge a b).dropSuccessor a b).dropPredecessor a b).values = g.values := by
      rw [values_dropPredecessor, values_dropSuccessor]
      rfl
    have hedges : (((g.dropEdge a b).dropSuccessor a b).dropPredecessor a b).edges =
        g.edges.erase (a, b) := by
      rw [edges_dropPredecessor, edges_dropSuccessor]
      rfl
    exact Content.ext hvalues hedges

theorem modifyNode_cases (id : κ) (f : ν → ν) :
    (g.vertices[id]? = none ∧ g.modifyNode id f = .error (.unknownNode id)) ∨
      ∃ v g', g.vertices[id]? = some v ∧ g.modifyNode id f = .ok (g', f v.value) ∧
        g'.content = { g.content with values := g.values.insert id (f v.value) } := by
  cases hv : g.vertices[id]? with
  | none => exact Or.inl ⟨rfl, by rw [modifyNode, hv]⟩
  | some v =>
    refine Or.inr ⟨v, _, rfl, by rw [modifyNode, hv], ?_⟩
    exact Content.ext (g.values_insert (v := { v with value := f v.value }) rfl) rfl

/-- A call changes the content, and is answered, as the two maps say. -/
theorem Indexed.call (h : g.Indexed) (c : Change κ ν ε) :
    (g.change c).content = g.content.change c ∧ g.reply c = g.content.reply c := by
  cases c with
  | addNode id value =>
    refine ⟨Content.ext (values_addNode id value) (edges_addNode id value), ?_⟩
    show Reply.node (g.addNode id value).2 = .node g.values[id]?
    rw [getElem?_values, Digraph.addNode]
    cases g.vertices[id]? <;> rfl
  | addEdge a b value =>
    show (g.left (g.addEdge a b value)).content = g.content.change (.addEdge a b value) ∧
      Reply.of .edge (g.addEdge a b value) = g.content.reply (.addEdge a b value)
    have ha : a ∈ g.content.values ↔ a ∈ g.vertices := g.mem_values
    have hb : b ∈ g.content.values ↔ b ∈ g.vertices := g.mem_values
    simp only [Content.change, Content.reply, ha, hb]
    rcases addEdge_cases a b value with ⟨hna, hg⟩ | ⟨hma, hnb, hg⟩ | ⟨hma, hmb, g', hg, hcontent⟩
    · rw [hg, if_neg fun hab => hna hab.1, if_pos hna]
      exact ⟨rfl, rfl⟩
    · rw [hg, if_neg fun hab => hnb hab.2, if_neg (not_not_intro hma), if_pos hnb]
      exact ⟨rfl, rfl⟩
    · rw [hg, if_pos ⟨hma, hmb⟩, if_neg (not_not_intro hma), if_neg (not_not_intro hmb)]
      exact ⟨hcontent, rfl⟩
  | removeNode id =>
    show (g.left (g.removeNode id)).content = g.content.change (.removeNode id) ∧
      Reply.of _ (g.removeNode id) = g.content.reply (.removeNode id)
    have hid : id ∈ g.content.values ↔ id ∈ g.vertices := g.mem_values
    have hvalue : g.content.values[id]? = (g.vertices[id]?).map Vertex.value := g.getElem?_values id
    simp only [Content.change, Content.reply, hid, hvalue]
    rcases removeNode_cases h id with ⟨hv, hg⟩ | ⟨v, g', hv, hg, hcontent⟩
    · rw [hg, hv, if_neg (KeyMap.getElem?_eq_none_iff.1 hv)]
      exact ⟨rfl, rfl⟩
    · rw [hg, hv, if_pos (mem_vertices_of_getElem? hv)]
      exact ⟨hcontent, rfl⟩
  | removeEdge a b =>
    show (g.left (g.removeEdge a b)).content = g.content.change (.removeEdge a b) ∧
      Reply.of _ (g.removeEdge a b) = g.content.reply (.removeEdge a b)
    have hvalue : g.content.edges[(a, b)]? = g.edges[(a, b)]? := rfl
    simp only [Content.change, Content.reply, hvalue]
    rcases removeEdge_cases a b with ⟨hv, hg⟩ | ⟨value, g', hv, hg, hcontent⟩
    · have herase : g.edges.erase (a, b) = g.edges :=
        KeyMap.erase_of_notMem (KeyMap.getElem?_eq_none_iff.1 hv)
      rw [hg, hv]
      exact ⟨Content.ext rfl herase.symm, rfl⟩
    · rw [hg, hv]
      exact ⟨hcontent, rfl⟩
  | modifyNode id f =>
    show (g.left (g.modifyNode id f)).content = g.content.change (.modifyNode id f) ∧
      Reply.of _ (g.modifyNode id f) = g.content.reply (.modifyNode id f)
    have hvalue : g.content.values[id]? = (g.vertices[id]?).map Vertex.value := g.getElem?_values id
    simp only [Content.change, Content.reply, hvalue]
    rcases modifyNode_cases id f with ⟨hv, hg⟩ | ⟨v, g', hv, hg, hcontent⟩
    · have hmodify : g.values.modify id f = g.values := by
        refine KeyMap.modify_of_notMem fun hid => ?_
        exact KeyMap.getElem?_eq_none_iff.1 hv (g.mem_values.1 hid)
      rw [hg, hv]
      exact ⟨Content.ext hmodify.symm rfl, rfl⟩
    · have hmodify : g.values.modify id f = g.values.insert id (f v.value) := by
        refine KeyMap.modify_eq_insert ?_
        rw [getElem?_values, hv]
        rfl
      rw [hg, hv]
      exact ⟨hcontent.trans (Content.ext hmodify.symm rfl), rfl⟩

theorem Indexed.content_foldl_change (h : g.Indexed) (cs : List (Change κ ν ε)) :
    (cs.foldl Digraph.change g).content = cs.foldl Content.change g.content := by
  induction cs generalizing g with
  | nil => rfl
  | cons c cs ih =>
    have hcontent := ih (h.change c)
    rw [(h.call c).1] at hcontent
    exact hcontent

omit [TransOrd κ] [LawfulEqOrd κ] in
theorem left_of_refused {α : Type} (answer : α → Reply κ ν ε)
    {r : Except (Error κ) (Digraph κ ν ε × α)} {e : Error κ} (hr : Reply.of answer r = .refused e)
    (hanswer : ∀ a, answer a ≠ .refused e) : g.left r = g := by
  cases r with
  | ok p => exact absurd hr (hanswer p.2)
  | error e' => rfl

omit [LawfulEqOrd κ] in
/-- A call that is refused leaves the whole graph as it was. -/
theorem change_of_refused {c : Change κ ν ε} {e : Error κ} (hc : g.reply c = .refused e) :
    g.change c = g := by
  cases c with
  | addNode id value => nomatch hc
  | addEdge a b value => exact left_of_refused Reply.edge hc fun _ h => nomatch h
  | removeNode id => exact left_of_refused (fun v => Reply.node (some v)) hc fun _ h => nomatch h
  | removeEdge a b => exact left_of_refused (fun v => Reply.edge (some v)) hc fun _ h => nomatch h
  | modifyNode id f => exact left_of_refused (fun v => Reply.node (some v)) hc fun _ h => nomatch h

end Calls

/-! ### Questions -/

section Questions

variable [LawfulEqOrd κ] {g g' : Digraph κ ν ε}

omit [LawfulEqOrd κ] in
theorem keys_values (g : Digraph κ ν ε) : g.values.keys = g.vertices.keys :=
  ExtTreeMap.keys_map

/-- The predecessors that a graph keeps are the nodes with an edge in its content. -/
theorem Indexed.toList_incoming (h : g.Indexed) (id : κ) : (g.incoming id).toList =
    g.values.keys.filter fun a => g.edges.contains (a, id) := by
  rw [keys_values]
  refine KeySet.toList_eq (ExtTreeMap.ordered_keys.filter _) fun a => ?_
  rw [h.mem_incoming, List.mem_filter, ExtTreeMap.mem_keys]
  show (a, id) ∈ g.edges ↔ a ∈ g.vertices ∧ (a, id) ∈ g.edges
  rw [iff_and_self]
  exact fun hedge => (h.ends_mem a id hedge).1

theorem Indexed.toList_outgoing (h : g.Indexed) (id : κ) : (g.outgoing id).toList =
    g.values.keys.filter fun b => g.edges.contains (id, b) := by
  rw [keys_values]
  refine KeySet.toList_eq (ExtTreeMap.ordered_keys.filter _) fun b => ?_
  rw [h.mem_outgoing, List.mem_filter, ExtTreeMap.mem_keys]
  show (id, b) ∈ g.edges ↔ b ∈ g.vertices ∧ (id, b) ∈ g.edges
  rw [iff_and_self]
  exact fun hedge => (h.ends_mem id b hedge).2

theorem Indexed.toList_sources (h : g.Indexed) : g.sources.toList = g.content.sources := by
  have hkeys : g.content.values.keys = g.vertices.keys := g.keys_values
  rw [Content.sources, hkeys]
  refine KeySet.toList_eq (ExtTreeMap.ordered_keys.filter _) fun id => ?_
  rw [h.mem_sources, List.mem_filter, ExtTreeMap.mem_keys, List.all_eq_true]
  refine and_congr_right fun _ => ⟨fun hno a _ => ?_, fun hno a hedge => ?_⟩
  · rw [Bool.not_eq_true', Bool.eq_false_iff]
    exact hno a
  · have hnot := hno a (ExtTreeMap.mem_keys.2 (h.ends_mem a id hedge).1)
    rw [Bool.not_eq_true', Bool.eq_false_iff] at hnot
    exact hnot hedge

theorem Indexed.toList_sinks (h : g.Indexed) : g.sinks.toList = g.content.sinks := by
  have hkeys : g.content.values.keys = g.vertices.keys := g.keys_values
  rw [Content.sinks, hkeys]
  refine KeySet.toList_eq (ExtTreeMap.ordered_keys.filter _) fun id => ?_
  rw [h.mem_sinks, List.mem_filter, ExtTreeMap.mem_keys, List.all_eq_true]
  refine and_congr_right fun _ => ⟨fun hno b _ => ?_, fun hno b hedge => ?_⟩
  · rw [Bool.not_eq_true', Bool.eq_false_iff]
    exact hno b
  · have hnot := hno b (ExtTreeMap.mem_keys.2 (h.ends_mem id b hedge).2)
    rw [Bool.not_eq_true', Bool.eq_false_iff] at hnot
    exact hnot hedge

omit [LawfulEqOrd κ] in
/-- What is asked of the vertex of a node is refused exactly for a node that is not there. -/
theorem map_vertex {α : Type} (g : Digraph κ ν ε) (id : κ) (f : Vertex κ ν → α) :
    (g.vertex id).map f = match g.vertices[id]? with
      | none => .error (.unknownNode id)
      | some v => .ok (f v) := by
  rw [vertex]
  cases g.vertices[id]? <;> rfl

theorem Indexed.shows (h : g.Indexed) : g.Shows g.content where
  containsNode id := ExtTreeMap.contains_map.symm
  containsEdge a b := rfl
  node id := by
    have hvalue : g.content.values[id]? = (g.vertices[id]?).map Vertex.value := g.getElem?_values id
    rw [node, map_vertex, Content.node, hvalue]
    cases g.vertices[id]? <;> rfl
  edge a b := rfl
  nodes := by
    show g.vertices.toList.map _ = (g.vertices.map fun _ v => v.value).toList
    rw [ExtTreeMap.toList_map]
  edgeList := rfl
  predecessors id := by
    have hid : id ∈ g.content.values ↔ id ∈ g.vertices := g.mem_values
    rw [predecessors, map_vertex, Content.predecessors]
    simp only [hid]
    cases hv : g.vertices[id]? with
    | none => rw [if_neg (KeyMap.getElem?_eq_none_iff.1 hv)]
    | some v =>
      have hlist := h.toList_incoming id
      rw [incoming_of_getElem? hv] at hlist
      rw [if_pos (mem_vertices_of_getElem? hv)]
      exact congrArg Except.ok hlist
  successors id := by
    have hid : id ∈ g.content.values ↔ id ∈ g.vertices := g.mem_values
    rw [successors, map_vertex, Content.successors]
    simp only [hid]
    cases hv : g.vertices[id]? with
    | none => rw [if_neg (KeyMap.getElem?_eq_none_iff.1 hv)]
    | some v =>
      have hlist := h.toList_outgoing id
      rw [outgoing_of_getElem? hv] at hlist
      rw [if_pos (mem_vertices_of_getElem? hv)]
      exact congrArg Except.ok hlist
  sources := h.toList_sources
  sinks := h.toList_sinks
  size := ExtTreeMap.size_map.symm
  edgeCount := rfl
  isEmpty := by
    have hsize : g.content.values.size = g.vertices.size := ExtTreeMap.size_map
    rw [isEmpty, ExtTreeMap.isEmpty_eq_size_beq_zero, ExtTreeMap.isEmpty_eq_size_beq_zero, hsize]

/-- Graphs with the same content are the same, their indexes included. -/
theorem Indexed.eq_of_content (h : g.Indexed) (h' : g'.Indexed)
    (hcontent : g.content = g'.content) :
    g = g' := by
  obtain ⟨hvalues, hedges⟩ := Content.mk.inj hcontent
  have hvertices : g.vertices = g'.vertices := by
    apply ExtTreeMap.ext_getElem?
    intro id
    have hvalue : (g.vertices[id]?).map Vertex.value = (g'.vertices[id]?).map Vertex.value := by
      rw [← getElem?_values, ← getElem?_values, hvalues]
    cases hv : g.vertices[id]? with
    | none =>
      rw [hv] at hvalue
      exact (Option.map_eq_none_iff.1 hvalue.symm).symm
    | some v =>
      rw [hv] at hvalue
      obtain ⟨v', hv', hvv⟩ := Option.map_eq_some_iff.1 hvalue.symm
      have hpred : v.predecessors = v'.predecessors := by
        apply ExtTreeSet.ext_mem
        intro a
        rw [← incoming_of_getElem? hv, ← incoming_of_getElem? hv', h.mem_incoming, h'.mem_incoming,
          hedges]
      have hsucc : v.successors = v'.successors := by
        apply ExtTreeSet.ext_mem
        intro b
        rw [← outgoing_of_getElem? hv, ← outgoing_of_getElem? hv', h.mem_outgoing, h'.mem_outgoing,
          hedges]
      rw [hv']
      show some v = some ⟨v'.value, v'.predecessors, v'.successors⟩
      rw [hvv, ← hpred, ← hsucc]
  have hsources : g.sources = g'.sources := by
    apply ExtTreeSet.ext_mem
    intro id
    rw [h.mem_sources, h'.mem_sources, hvertices, hedges]
  have hsinks : g.sinks = g'.sinks := by
    apply ExtTreeSet.ext_mem
    intro id
    rw [h.mem_sinks, h'.mem_sinks, hvertices, hedges]
  show g = ⟨g'.vertices, g'.edges, g'.sources, g'.sinks⟩
  rw [← hvertices, ← hedges, ← hsources, ← hsinks]

end Questions

/-! ### Any sequence of calls -/

variable [LawfulEqOrd κ]

/-- After any calls, refused ones among them, a graph holds what the two maps hold after them.  The
next call is answered as on the two maps, it leaves the whole graph as it was if it is refused, and
every question is answered as the maps say.  Histories that end in the same content end in the same
graph, so that nothing that is asked or sorted afterwards tells them apart. -/
theorem after_refines_content (cs : List (Change κ ν ε)) :
    (after cs).content = Content.after cs ∧
    (∀ c, (after cs).reply c = (Content.after cs).reply c) ∧
    (∀ c e, (after cs).reply c = .refused e → (after cs).change c = after cs) ∧
    (after cs).Shows (Content.after cs) ∧
    (∀ cs' : List (Change κ ν ε), (after cs').content = (after cs).content →
      after cs' = after cs) := by
  have h : (after cs).Indexed := indexed_after cs
  have hcontent : (after cs).content = Content.after cs := by
    rw [after, indexed_empty.content_foldl_change cs, content_empty]
    rfl
  rw [← hcontent]
  refine ⟨rfl, fun c => (h.call c).2, fun c e => change_of_refused, h.shows, fun cs' hcs' => ?_⟩
  exact (indexed_after cs').eq_of_content h hcs'

/-- The graph that is left of `loopRemoved`, built at once. -/
def loopRebuilt : List (Change Nat String Nat) :=
  [.addNode 3 "c!", .addNode 2 "b", .addEdge 3 2 3]

theorem after_loopRemoved : after loopRemoved = after loopRebuilt ∧
    (after loopRemoved).reply (.addEdge 4 5 0) = .refused (.unknownNode 4) ∧
    (after loopRemoved).change (.addEdge 4 5 0) = after loopRemoved ∧
    (after loopRemoved).reply (.removeNode 3) = .node (some "c!") := by
  obtain ⟨hcontent, -, -, -, hsame⟩ := after_refines_content loopRebuilt
  obtain ⟨hremoved, hreply, hrefused, -, -⟩ := after_refines_content loopRemoved
  have hvalues : (Content.after loopRemoved).values = (Content.after loopRebuilt).values := by
    decide +kernel
  have hedges : (Content.after loopRemoved).edges = (Content.after loopRebuilt).edges := by
    decide +kernel
  have hmaps : Content.after loopRemoved = Content.after loopRebuilt := Content.ext hvalues hedges
  have hunknown : (after loopRemoved).reply (.addEdge 4 5 0) = .refused (.unknownNode 4) := by
    rw [hreply]
    decide +kernel
  refine ⟨hsame loopRemoved (by rw [hremoved, hcontent, hmaps]), hunknown,
    hrefused _ _ hunknown, ?_⟩
  rw [hreply]
  decide +kernel

end Requisite.Digraph
