import Requisite.Proofs.Distribution.Findings
import Requisite.Proofs.Distribution.Unfolding

/-!
# Findings that save questions

A source that answers from a table is asked for each layer once, and only for the names of it that
nothing is known of.  The graph and its layers are those of the table, whatever was known before;
and what is known afterwards has all names of the graph, so that nothing is asked for again.

* **`Source.Serves`** — the layers that a source was asked for, and what is known of them;
* **`Source.closure_fetches_once`** — the same graph with fewer questions, down to none.
-/

namespace Requisite

open DistributionGraph Std

variable {σ ε : Type} {src : Source σ ε} {table : KeyMap String Distribution}
  {layers : List Names} {layer : Names} {g : DistributionGraph} {found found' : Findings}
  {s s₀ : σ} {r : Except ε DistributionGraph × Findings × σ}

/-- The questions for some layers, one after the other, with what comes of them: the graph with all
layers known, or the error of the first question that fails with the names of the questions before
it known.  The state that the source is left in says which questions it was asked. -/
inductive Source.Serves (src : Source σ ε) (table : KeyMap String Distribution)
    (layers : List Names) (g : DistributionGraph) (found : Findings) (s : σ) :
    Except ε DistributionGraph × Findings × σ → Prop
  | complete {found' : Findings} (hanswers : src.AnswersAll s (Closure.batches found layers))
      (hlearns : found.Learns table (fun n => ∃ layer ∈ layers, n ∈ layer) found') :
      Serves src table layers g found s
        (.ok g, found', src.afterAsking s (Closure.batches found layers))
  | refused {before after : List Names} {layer : Names} {e : ε} {found' : Findings} {s' : σ}
      (hlayers : layers = before ++ layer :: after)
      (hanswers : src.AnswersAll s (Closure.batches found before))
      (hunknown : Closure.unknown layer found ≠ [])
      (hfetch : src.fetch (Closure.unknown layer found)
        (src.afterAsking s (Closure.batches found before)) = (.error e, s'))
      (hlearns : found.Learns table (· ∈ (Closure.batches found before).flatten) found') :
      Serves src table layers g found s (.error e, found', s')

theorem Source.Serves.agrees (h : src.Serves table layers g found s r)
    (hfound : found.Agrees table) : r.2.1.Agrees table := by
  cases h with
  | complete _ hlearns => exact hlearns.agrees hfound
  | refused _ _ _ _ hlearns => exact hlearns.agrees hfound

theorem Source.Serves.eq_of_ok (h : src.Serves table layers g found s r) {g' : DistributionGraph}
    (hg : r.1 = .ok g') : g' = g := by
  cases h with
  | complete => exact (Except.ok.inj hg).symm
  | refused => nomatch hg

/-- If all is known, nothing is asked for and nothing changes. -/
theorem Source.Serves.eq_of_known (h : src.Serves table layers g found s r)
    (hfound : found.Agrees table) (hknown : ∀ layer ∈ layers, ∀ n ∈ layer, n ∈ found) :
    r = (.ok g, found, s) := by
  cases h with
  | complete _ hlearns =>
    rw [Closure.batches_eq_nil hknown, hlearns.eq_self hfound fun n hn => ?_]
    · rfl
    · obtain ⟨layer, hlayer, hmem⟩ := hn
      exact hknown layer hlayer n hmem
  | refused hlayers _ hunknown _ _ =>
    subst hlayers
    refine absurd (Closure.unknown_eq_nil ?_) hunknown
    exact hknown _ (List.mem_append_right _ List.mem_cons_self)

namespace Closure

theorem batches_cons (found : Findings) (layer : Names) (layers : List Names) :
    batches found (layer :: layers) = batches found [layer] ++ batches found layers :=
  batches_append found [layer] layers

/-- What is learnt of one layer does not change the questions for other layers. -/
theorem batches_of_learns (h : found.Learns table (· ∈ layer) found')
    (hdisjoint : ∀ l ∈ layers, ∀ n ∈ layer, n ∉ l) :
    batches found' layers = batches found layers := by
  apply batches_congr
  intro l hl n hn
  rw [h.mem_iff, or_iff_right fun hlayer => hdisjoint l hl n hlayer hn]

/-- A layer that was looked up comes before the layers after it. -/
theorem serves_cons (hfound : found.Agrees table) (hlearns : found.Learns table (· ∈ layer) found')
    (hanswers : src.AnswersAll s (batches found [layer]))
    (hdisjoint : ∀ l ∈ layers, ∀ n ∈ layer, n ∉ l)
    (h : src.Serves table layers g found' (src.afterAsking s (batches found [layer])) r) :
    src.Serves table (layer :: layers) g found s r := by
  cases h with
  | complete hanswers' hlearns' =>
    rw [batches_of_learns hlearns hdisjoint] at hanswers' ⊢
    rw [← Source.afterAsking_append, ← batches_cons]
    refine .complete ?_ ((hlearns.trans hlearns').congr hfound fun n _ => ?_)
    · rw [batches_cons]
      exact Source.answersAll_append.2 ⟨hanswers, hanswers'⟩
    · simp only [List.mem_cons, or_and_right, exists_or, exists_eq_left]
  | @refused before after l e found'' s' hlayers hanswers' hunknown hfetch hlearns' =>
    subst hlayers
    -- the layer that fails, and those before it, have no name that was just learnt
    have hbefore : ∀ l ∈ before, ∀ n ∈ layer, n ∉ l := by
      intro l hl
      exact hdisjoint l (List.mem_append_left _ hl)
    have hl : unknown l found' = unknown l found := by
      apply unknown_congr
      intro n hn
      rw [hlearns.mem_iff, or_iff_right]
      intro hlayer
      exact hdisjoint l (List.mem_append_right _ List.mem_cons_self) n hlayer hn
    rw [batches_of_learns hlearns hbefore] at hanswers' hfetch hlearns'
    rw [hl] at hunknown hfetch
    rw [← Source.afterAsking_append, ← batches_cons] at hfetch
    refine .refused (List.cons_append ..).symm ?_ hunknown hfetch
      ((hlearns.trans hlearns').congr hfound fun n hn => ?_)
    · rw [batches_cons]
      exact Source.answersAll_append.2 ⟨hanswers, hanswers'⟩
    · rw [mem_flatten_batches, mem_flatten_batches, and_iff_left hn, and_iff_left hn]
      simp only [List.mem_cons, or_and_right, exists_or, exists_eq_left]

/-- A layer that was looked up leads to what it leads to in the table. -/
theorem visitLayer_of_learns {env : Environment} {graph : DistributionGraph} {requests : Requests}
    (h : found.Learns table (· ∈ layer) found') :
    visitLayer env graph layer requests found' =
      visitLayer env graph layer requests (entries table) := by
  apply visitLayer_congr
  intro n hn
  rw [h.learnt n hn, join_entries, Option.join_some]

/-- The layers of the table are those that a source which answers from it is asked for. -/
theorem Unfolds.serves {graph : DistributionGraph} {requests : Requests}
    (h : Unfolds src.environment table layer graph requests layers g)
    (hdisjoint : layers.Pairwise fun a b => ∀ n ∈ a, n ∉ b) (hsrc : src.AnswersFrom s₀ table)
    (hs : src.Reaches s₀ s) (hfound : found.Agrees table)
    (hends : Ends src layer graph requests found s r) : src.Serves table layers g found s r := by
  -- along the layers of the table; the findings grow with each of them and keep to agree with it
  induction h generalizing found s with
  | done hlayer =>
    cases hends with
    | done =>
      refine .complete trivial (Findings.learns_self hfound fun n hn => ?_)
      simp only [List.not_mem_nil, false_and, exists_false] at hn
    | failed hlayer' | layer hlayer' => nomatch hlayer.symm.trans hlayer'
  | @layer layer graph g requests layers hlayer hrest ih =>
    obtain ⟨hlayers, hdisjoint⟩ := List.pairwise_cons.1 hdisjoint
    cases hends with
    | done hlayer' => nomatch hlayer.symm.trans hlayer'
    | failed _ hlookUp =>
      obtain ⟨hunknown, hfetch⟩ := lookUp_eq_error hlookUp
      refine .refused (List.nil_append (layer :: layers)).symm trivial hunknown hfetch ?_
      exact Findings.learns_self hfound fun n hn => absurd hn List.not_mem_nil
    | layer _ hlookUp hends =>
      have hlearns := learns_lookUp hsrc hs hfound hlookUp
      have hs' := reaches_lookUp hs hlookUp
      obtain ⟨rfl, hanswers, -⟩ := lookUp_eq_ok hlookUp
      rw [visitLayer_of_learns hlearns] at hends
      exact serves_cons hfound hlearns hanswers hlayers
        (ih hdisjoint hs' (hlearns.agrees hfound) hends)

/-! ### The layers of a table -/

/-- A graph that is built from a source which answers from a table is that of the table. -/
theorem Ends.unfolds {graph : DistributionGraph} {requests : Requests}
    (h : Ends src layer graph requests found s r) (hsrc : src.AnswersFrom s₀ table)
    (hs : src.Reaches s₀ s) (hfound : found.Agrees table) (hg : r.1 = .ok g) :
    ∃ layers, Unfolds src.environment table layer graph requests layers g := by
  induction h with
  | @done layer graph _ _ _ hlayer =>
    obtain rfl : graph = g := Except.ok.inj hg
    exact ⟨[], .done hlayer⟩
  | failed => nomatch hg
  | @layer layer _ _ _ _ _ _ _ hlayer hlookUp _ ih =>
    have hlearns := learns_lookUp hsrc hs hfound hlookUp
    obtain ⟨layers, hrest⟩ := ih (reaches_lookUp hs hlookUp) (hlearns.agrees hfound) hg
    rw [visitLayer_of_learns hlearns] at hrest
    exact ⟨layer :: layers, .layer hlayer hrest⟩

/-- The declared names lead to a list of layers and to a graph. -/
theorem exists_unfolds (env : Environment) (table : KeyMap String Distribution)
    (ds : List Dependency) : ∃ layers g, Unfolds env table (firstLayer (declaredAll env ds)) ∅
      (requestsOf (declaredAll env ds)) layers g := by
  -- a source that answers from the table and never fails, asked with nothing known
  let c : Catalog Empty := ⟨env, table, fun _ => none, fun _ => false⟩
  have hbuilds := Source.builds_closure ds ∅ (c.installs []) (c.size_names_le [])
  obtain ⟨g, hg⟩ : ∃ g, (c.source.closure ds ∅ []).1 = .ok g := by
    refine hbuilds.exists_ok .refl fun s' asked _ => ?_
    exact ⟨c.findings asked, rfl⟩
  obtain ⟨layers, hunfolds⟩ :=
    hbuilds.unfolds (c.answersFrom []) .refl (Findings.agrees_empty table) hg
  exact ⟨layers, g, hunfolds⟩

/-- The layers have no name in common, as each name has one distance only. -/
theorem Unfolds.pairwise {env : Environment} {asked : List (String × List String)}
    (h : Unfolds env table (firstLayer asked) ∅ (requestsOf asked) layers g) :
    layers.Pairwise fun a b => ∀ n ∈ a, n ∉ b := by
  have hdepth : ∀ {i : Nat} (hi : i < layers.length) {n : String}, n ∈ layers[i] →
      g.Depth (roots asked) i n := by
    intro i hi n hn
    refine (h.mem_layer_iff n).1 ?_
    rw [List.getD_eq_getElem?_getD, List.getElem?_eq_getElem hi, Option.getD_some]
    exact hn
  refine List.pairwise_iff_getElem.2 fun i j hi hj hij n hni hnj => ?_
  have heq := (hdepth hi hni).unique (hdepth hj hnj)
  omega

end Closure

/-- For a source that answers from a table the declared names lead to one graph and its layers,
which have the names at each distance from those declared.  From findings that agree with the table
each layer is asked for at most once, in order and without a name twice or one that is known; if no
question fails the graph is the result, and then nothing is asked for again. -/
theorem Source.closure_fetches_once (src : Source σ ε) (ds : List Dependency) (s : σ)
    (table : KeyMap String Distribution) (hsrc : src.AnswersFrom s table) :
    ∃ g layers,
      (∀ k n, n ∈ layers.getD k ∅ ↔
        g.Depth (Closure.roots (Closure.declaredAll src.environment ds)) k n) ∧
      (∀ n, g.Has n ↔ ∃ layer ∈ layers, n ∈ layer) ∧
      ∀ found s', found.Agrees table → src.Reaches s s' →
        (∀ names ∈ Closure.batches found layers,
          names ≠ [] ∧ names.Pairwise fun a b => compare a b = .lt) ∧
        src.Serves table layers g found s' (src.closure ds found s') ∧
        (src.closure ds found s').2.1.Agrees table ∧
        ∀ found' s₁, src.closure ds found s' = (.ok g, found', s₁) →
          ∀ s₂, src.Reaches s s₂ → src.closure ds found' s₂ = (.ok g, found', s₂) := by
  let asked := Closure.declaredAll src.environment ds
  obtain ⟨layers, g, hunfolds⟩ := Closure.exists_unfolds src.environment table ds
  have hm := Closure.met_start asked
  have hr := Closure.resolved_start src.environment asked
  have hserves : ∀ {found : Findings} {s' : σ}, found.Agrees table → src.Reaches s s' →
      src.Serves table layers g found s' (src.closure ds found s') := by
    intro found s' hfound hs'
    refine hunfolds.serves hunfolds.pairwise hsrc hs' hfound ?_
    exact builds_closure ds found (hsrc.of_reaches hs').installs
      (Nat.le_trans (size_ofList_keys_le table) (hsrc.bound s' hs'))
  have hhas : ∀ n, g.Has n ↔ ∃ layer ∈ layers, n ∈ layer := by
    intro n
    rw [hunfolds.has_iff hm hr, or_iff_right not_has_empty]
  refine ⟨g, layers, fun k n => hunfolds.mem_layer_iff n, hhas, fun found s' hfound hs' => ?_⟩
  have hserved := hserves hfound hs'
  refine ⟨fun names hnames => Closure.sorted_of_mem_batches hnames, hserved,
    hserved.agrees hfound, fun found' s₁ hrun s₂ hs₂ => ?_⟩
  have hagrees := hserved.agrees hfound
  rw [hrun] at hserved hagrees
  refine (hserves hagrees hs₂).eq_of_known hagrees fun layer hlayer n hn => ?_
  cases hserved with
  | complete _ hlearns => exact hlearns.mem_iff.2 (Or.inl ⟨layer, hlayer, hn⟩)

/-- Findings on one of the names that a dependency on `App` leads to. -/
def circleKnown : Findings :=
  ExtTreeMap.ofList [("lib", some circleLib)]

/-- The findings on all names that a dependency on `App` leads to. -/
def circleFound : Findings :=
  ExtTreeMap.ofList [("app", some circleApp), ("gone", none), ("lib", some circleLib)]

/-- The questions for the names that are not known. -/
def circleAsked : List (List String) :=
  [["app"], ["gone"]]

theorem circleKnown_agrees : circleKnown.Agrees circle.installed := by
  intro n entry h
  by_cases hn : n = "lib"
  · subst hn
    have hlib : circleKnown["lib"]? = some circle.installed["lib"]? := by decide +kernel
    exact Option.some.inj (h.symm.trans hlib)
  · have hnone : circleKnown[n]? = none := by
      rw [circleKnown, ExtTreeMap.ofList_singleton, KeyMap.getElem?_insert_of_ne hn]
      exact ExtTreeMap.getElem?_empty
    nomatch hnone.symm.trans h

/-- A dependency on `App` with `lib` known asks for the two other names, each in its layer; after
that it asks for nothing. -/
theorem closure_fetches_once_circle :
    circle.source.closure circleDeclared circleKnown [] =
        (.ok circleGraph, circleFound, circleAsked) ∧
      circle.source.closure circleDeclared circleFound circleAsked =
        (.ok circleGraph, circleFound, circleAsked) := by
  have hgraph : (circle.source.closure circleDeclared circleKnown []).1 = .ok circleGraph :=
    eq_ok_of_parts (by decide +kernel)
  have hknown : (circle.source.closure circleDeclared circleKnown []).2 =
      (circleFound, circleAsked) := by
    decide +kernel
  have hrun : circle.source.closure circleDeclared circleKnown [] =
      (.ok circleGraph, circleFound, circleAsked) :=
    Prod.ext hgraph hknown
  obtain ⟨g, layers, -, -, hcache⟩ := circle.source.closure_fetches_once circleDeclared []
    circle.installed (circle.answersFrom [])
  obtain ⟨-, hserves, -, hagain⟩ := hcache circleKnown [] circleKnown_agrees .refl
  rw [hrun] at hserves hagain
  obtain rfl := hserves.eq_of_ok rfl
  have hasked : circle.source.Reaches [] circleAsked :=
    (Source.Reaches.refl.fetch ["app"]).fetch ["gone"]
  exact ⟨hrun, hagain circleFound circleAsked rfl circleAsked hasked⟩

end Requisite
