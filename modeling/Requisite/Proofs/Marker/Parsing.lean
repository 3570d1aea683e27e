import Requisite.Marker.Parser
import Requisite.Proofs.Marker.Grammar
import Requisite.Proofs.Marker.Lexis
import Requisite.Proofs.Outcome

/-!
# Reading exactly the markers

The reader of markers against their grammar.  What it reads at the start of some tokens is derived by
the grammar, and whatever the grammar derives is read, if no token follows that would belong to it.

* **`Marker.exists_condition`** and its companions — what is read is derived;
* **`Phrase.Condition.conditions?_eq_ok`** and its companions — what is derived is read;
* **`Marker.ofTokens_eq_ok_iff`** — a list of tokens is read if and only if it is derived;
* **`Marker.parse_reads_grammar`** — the same of texts, which are refused otherwise.
-/

namespace Requisite

namespace Marker

open Phrase

/-- The tokens without the texts that refusals quote. -/
def kinds (ts : Tokens) : List Token :=
  ts.map Prod.fst

/-! ### Single tokens -/

theorem token?_kinds {t : Token} {ts : Tokens} {r : Reading Unit ts} (h : token? t ts = some r) :
    kinds ts = t :: kinds r.rest := by
  obtain ⟨text, hts⟩ := token?_eq_some h
  exact congrArg kinds hts

theorem token?_of_kinds {t : Token} {ts : Tokens} {us : List Token} (h : kinds ts = t :: us) :
    ∃ r, token? t ts = some r ∧ kinds r.rest = us := by
  match ts with
  | [] => nomatch h
  | (u, text) :: ts =>
    obtain ⟨hu, rfl⟩ := List.cons.inj h
    exact ⟨.first () (u, text) ts, by rw [token?, if_pos hu], rfl⟩

theorem token?_eq_none {t : Token} {ts : Tokens} (h : (kinds ts).head? ≠ some t) :
    token? t ts = none := by
  match ts with
  | [] => rfl
  | (u, text) :: ts => rw [token?, if_neg fun hu => h (congrArg some hu)]

theorem operand?_kinds {ts : Tokens} {r : Reading Operand ts} (h : operand? ts = .ok r) :
    kinds ts = r.value.token :: kinds r.rest := by
  unfold operand? at h
  split at h
  next => nomatch h
  next =>
    cases h
    rfl
  next name text ts =>
    split at h
    next hname =>
      cases h
      rw [hname]
      rfl
    next =>
      split at h
      next v hv =>
        cases h
        have hname := List.find?_some hv
        rw [beq_iff_eq] at hname
        rw [← hname]
        rfl
      next => nomatch h
  next => nomatch h

theorem operand?_of_kinds {o : Operand} {ts : Tokens} {us : List Token}
    (h : kinds ts = o.token :: us) : ∃ r, operand? ts = .ok r ∧ r.value = o ∧ kinds r.rest = us := by
  match ts with
  | [] => nomatch h
  | (t, text) :: ts =>
    obtain ⟨rfl, rfl⟩ := List.cons.inj h
    cases o with
    | literal value => exact ⟨_, rfl, rfl, rfl⟩
    | extra => exact ⟨_, rfl, rfl, rfl⟩
    | «variable» v =>
      refine ⟨.first (.variable v) _ ts, ?_, rfl, rfl⟩
      have hname : v.name ≠ "extra" := by cases v <;> decide
      show operand? ((.word v.name, text) :: ts) = _
      rw [operand?, if_neg hname, Variable.ofName?_name]
      rfl

theorem comparator?_kinds {ts : Tokens} {r : Reading Comparator ts} (h : comparator? ts = .ok r) :
    kinds ts = .comparator r.value :: kinds r.rest := by
  unfold comparator? at h
  split at h
  next => nomatch h
  next =>
    cases h
    rfl
  next => nomatch h

theorem comparator?_of_kinds {op : Comparator} {ts : Tokens} {us : List Token}
    (h : kinds ts = .comparator op :: us) :
    ∃ r, comparator? ts = .ok r ∧ r.value = op ∧ kinds r.rest = us := by
  match ts with
  | [] => nomatch h
  | (t, text) :: ts =>
    obtain ⟨rfl, rfl⟩ := List.cons.inj h
    exact ⟨_, rfl, rfl, rfl⟩

theorem closing?_kinds {ts : Tokens} {r : Reading Unit ts} (h : closing? ts = .ok r) :
    kinds ts = .closing :: kinds r.rest := by
  unfold closing? at h
  split at h
  next => nomatch h
  next =>
    cases h
    rfl
  next => nomatch h

theorem closing?_of_kinds {ts : Tokens} {us : List Token} (h : kinds ts = .closing :: us) :
    ∃ r, closing? ts = .ok r ∧ kinds r.rest = us := by
  match ts with
  | [] => nomatch h
  | (t, text) :: ts =>
    obtain ⟨rfl, rfl⟩ := List.cons.inj h
    exact ⟨_, rfl, rfl⟩

theorem notChained_eq_ok {ts : Tokens} (h : ∀ t ∈ (kinds ts).head?, ¬IsSign t) :
    notChained ts = .ok () := by
  unfold notChained
  split
  next op text ts => exact absurd ⟨op, rfl⟩ (h _ rfl)
  next => rfl

/-! ### Comparisons -/

theorem comparison?_kinds {ts : Tokens} {r : Reading Comparison ts} (h : comparison? ts = .ok r) :
    kinds ts = comparisonTokens r.value ++ kinds r.rest := by
  unfold comparison? at h
  obtain ⟨lhs, hlhs, h⟩ := Outcome.of_bind h
  obtain ⟨op, hop, h⟩ := Outcome.of_bind h
  obtain ⟨rhs, hrhs, h⟩ := Outcome.of_bind h
  obtain ⟨-, -, h⟩ := Outcome.of_bind h
  cases h
  rw [operand?_kinds hlhs, comparator?_kinds hop, operand?_kinds hrhs]
  rfl

theorem comparison?_of_kinds {c : Comparison} {ts : Tokens} {us : List Token}
    (h : kinds ts = comparisonTokens c ++ us) (hus : ∀ t ∈ us.head?, ¬IsSign t) :
    ∃ r, comparison? ts = .ok r ∧ r.value = c ∧ kinds r.rest = us := by
  obtain ⟨lhs, hlhs, hvl, hkl⟩ := operand?_of_kinds h
  obtain ⟨op, hop, hvo, hko⟩ := comparator?_of_kinds hkl
  obtain ⟨rhs, hrhs, hvr, hkr⟩ := operand?_of_kinds hko
  have hchain : notChained rhs.rest = .ok () := notChained_eq_ok (by rw [hkr]; exact hus)
  refine ⟨lhs.append (op.append rhs Prod.mk) fun l p => ⟨l, p.1, p.2⟩, ?_, ?_, hkr⟩
  · rw [comparison?, hlhs]
    show (comparator? lhs.rest).bind _ = _
    rw [hop]
    show (operand? op.rest).bind _ = _
    rw [hrhs]
    show (notChained rhs.rest).bind _ = _
    rw [hchain]
    rfl
  · show (⟨lhs.value, op.value, rhs.value⟩ : Comparison) = c
    rw [hvl, hvo, hvr]

/-! ### What is read is derived -/

mutual

theorem exists_condition (ts : Tokens) {r : Reading (List Marker) ts} (h : conditions? ts = .ok r) :
    ∃ c : Condition, r.value = c.parts ∧ kinds ts = c.tokens ++ kinds r.rest := by
  rw [conditions?] at h
  cases hconj : conjuncts? ts with
  | error e =>
    rw [hconj] at h
    nomatch h
  | ok part =>
    obtain ⟨c, hc, hkinds⟩ := exists_conjunction ts hconj
    rw [hconj] at h
    dsimp only at h
    split at h
    next =>
      cases h
      exact ⟨.only c, by rw [Condition.parts, c.marker_eq_ofAll, ← hc]; rfl, hkinds⟩
    next sign hsign =>
      have := Nat.lt_trans sign.shorter part.shorter
      cases hmore : conditions? sign.rest with
      | error e =>
        rw [hmore] at h
        nomatch h
      | ok more =>
        obtain ⟨c', hc', hkinds'⟩ := exists_condition sign.rest hmore
        rw [hmore] at h
        cases h
        refine ⟨.or c c', ?_, ?_⟩
        · rw [Condition.parts, c.marker_eq_ofAll, ← hc, ← hc']
          rfl
        · have hor : kinds part.rest = .or :: kinds sign.rest := token?_kinds hsign
          rw [hkinds, hor, hkinds', Condition.tokens, List.append_assoc, List.cons_append]
          rfl
termination_by 3 * ts.length + 2

theorem exists_conjunction (ts : Tokens) {r : Reading (List Marker) ts} (h : conjuncts? ts = .ok r) :
    ∃ c : Conjunction, r.value = c.parts ∧ kinds ts = c.tokens ++ kinds r.rest := by
  rw [conjuncts?] at h
  cases hatom : atom? ts with
  | error e =>
    rw [hatom] at h
    nomatch h
  | ok part =>
    obtain ⟨a, ha, hkinds⟩ := exists_atom ts hatom
    rw [hatom] at h
    dsimp only at h
    split at h
    next =>
      cases h
      exact ⟨.only a, by rw [Conjunction.parts, ← ha]; rfl, hkinds⟩
    next sign hsign =>
      have := Nat.lt_trans sign.shorter part.shorter
      cases hmore : conjuncts? sign.rest with
      | error e =>
        rw [hmore] at h
        nomatch h
      | ok more =>
        obtain ⟨c', hc', hkinds'⟩ := exists_conjunction sign.rest hmore
        rw [hmore] at h
        cases h
        refine ⟨.and a c', ?_, ?_⟩
        · rw [Conjunction.parts, ← ha, ← hc']
          rfl
        · have hand : kinds part.rest = .and :: kinds sign.rest := token?_kinds hsign
          rw [hkinds, hand, hkinds', Conjunction.tokens, List.append_assoc, List.cons_append]
          rfl
termination_by 3 * ts.length + 1

theorem exists_atom (ts : Tokens) {r : Reading Marker ts} (h : atom? ts = .ok r) :
    ∃ a : Atom, r.value = a.marker ∧ kinds ts = a.tokens ++ kinds r.rest := by
  rw [atom?] at h
  split at h
  next =>
    cases hcomparison : comparison? ts with
    | error e =>
      rw [hcomparison] at h
      nomatch h
    | ok c =>
      rw [hcomparison] at h
      cases h
      exact ⟨.comparison c.value, rfl, comparison?_kinds hcomparison⟩
  next opening hopening =>
    have := opening.shorter
    cases hparts : conditions? opening.rest with
    | error e =>
      rw [hparts] at h
      nomatch h
    | ok parts =>
      obtain ⟨c, hc, hkinds⟩ := exists_condition opening.rest hparts
      rw [hparts] at h
      dsimp only at h
      cases hclosing : closing? parts.rest with
      | error e =>
        rw [hclosing] at h
        nomatch h
      | ok closing =>
        rw [hclosing] at h
        cases h
        refine ⟨.enclosed c, ?_, ?_⟩
        · rw [Atom.marker, c.marker_eq_ofAny, ← hc]
          rfl
        · rw [token?_kinds hopening, hkinds, closing?_kinds hclosing, Atom.tokens]
          simp only [List.cons_append, List.append_assoc, List.nil_append]
          rfl
termination_by 3 * ts.length

end

/-! ### What is derived is read -/

end Marker

namespace Phrase

open Marker

mutual

theorem Condition.conditions?_eq_ok : ∀ (c : Condition) {ts : Tokens} {us : List Token},
    kinds ts = c.tokens ++ us → EndsCondition us → (∀ t ∈ us.head?, ¬IsSign t) →
      ∃ r, conditions? ts = .ok r ∧ r.value = c.parts ∧ kinds r.rest = us
  | .only c, ts, us, h, hend, hsign => by
    obtain ⟨part, hpart, hvalue, hrest⟩ := c.conjuncts?_eq_ok h hend.1 hsign
    refine ⟨(part.map ofAll).map ([·]), ?_, ?_, hrest⟩
    · have hstop : token? .or (part.map ofAll).rest = none :=
        token?_eq_none (hrest.symm ▸ hend.2)
      rw [conditions?, hpart]
      dsimp only
      rw [hstop]
    · rw [Condition.parts, c.marker_eq_ofAll, ← hvalue]
      rfl
  | .or c more, ts, us, h, hend, hsign => by
    rw [Condition.tokens, List.append_assoc] at h
    obtain ⟨part, hpart, hvalue, hrest⟩ :=
      c.conjuncts?_eq_ok h (by simp) fun t ht => by
        cases ht
        exact not_isSign_or
    have hor : kinds (part.map ofAll).rest = .or :: (more.tokens ++ us) := hrest
    obtain ⟨sign, hsign', hnext⟩ := token?_of_kinds hor
    obtain ⟨r, hr, hparts, hus⟩ := more.conditions?_eq_ok hnext hend hsign
    refine ⟨(part.map ofAll).append (sign.next r) (· :: ·), ?_, ?_, hus⟩
    · rw [conditions?, hpart]
      dsimp only
      rw [hsign']
      dsimp only
      rw [hr]
    · rw [Condition.parts, c.marker_eq_ofAll, ← hvalue, ← hparts]
      rfl

theorem Conjunction.conjuncts?_eq_ok : ∀ (c : Conjunction) {ts : Tokens} {us : List Token},
    kinds ts = c.tokens ++ us → us.head? ≠ some .and → (∀ t ∈ us.head?, ¬IsSign t) →
      ∃ r, conjuncts? ts = .ok r ∧ r.value = c.parts ∧ kinds r.rest = us
  | .only a, ts, us, h, hend, hsign => by
    obtain ⟨part, hpart, hvalue, hrest⟩ := a.atom?_eq_ok h hsign
    refine ⟨part.map ([·]), ?_, ?_, hrest⟩
    · have hstop : token? .and part.rest = none := token?_eq_none (hrest.symm ▸ hend)
      rw [conjuncts?, hpart]
      dsimp only
      rw [hstop]
    · rw [Conjunction.parts, ← hvalue]
      rfl
  | .and a more, ts, us, h, hend, hsign => by
    rw [Conjunction.tokens, List.append_assoc] at h
    obtain ⟨part, hpart, hvalue, hrest⟩ := a.atom?_eq_ok h fun t ht => by
      cases ht
      exact not_isSign_and
    obtain ⟨sign, hsign', hnext⟩ := token?_of_kinds hrest
    obtain ⟨r, hr, hparts, hus⟩ := more.conjuncts?_eq_ok hnext hend hsign
    refine ⟨part.append (sign.next r) (· :: ·), ?_, ?_, hus⟩
    · rw [conjuncts?, hpart]
      dsimp only
      rw [hsign']
      dsimp only
      rw [hr]
    · rw [Conjunction.parts, ← hvalue, ← hparts]
      rfl

theorem Atom.atom?_eq_ok : ∀ (a : Atom) {ts : Tokens} {us : List Token},
    kinds ts = a.tokens ++ us → (∀ t ∈ us.head?, ¬IsSign t) →
      ∃ r, atom? ts = .ok r ∧ r.value = a.marker ∧ kinds r.rest = us
  | .comparison c, ts, us, h, hsign => by
    obtain ⟨r, hr, hvalue, hrest⟩ := comparison?_of_kinds h hsign
    refine ⟨r.map .compare, ?_, ?_, hrest⟩
    · have hopening : token? .opening ts = none := by
        refine token?_eq_none ?_
        rw [h]
        exact fun hhead => c.lhs.token_ne_opening (Option.some.inj hhead)
      rw [atom?, hopening]
      dsimp only
      rw [hr]
    · rw [Atom.marker, ← hvalue]
      rfl
  | .enclosed c, ts, us, h, hsign => by
    rw [Atom.tokens, List.cons_append, List.cons_append, List.append_assoc] at h
    obtain ⟨opening, hopening, hinner⟩ := token?_of_kinds h
    obtain ⟨parts, hparts, hvalue, hrest⟩ :=
      c.conditions?_eq_ok hinner ⟨nofun, nofun⟩ fun t ht => by
        cases ht
        exact not_isSign_closing
    obtain ⟨closing, hclosing, hus⟩ := closing?_of_kinds hrest
    refine ⟨opening.next ((parts.closed closing).map ofAny), ?_, ?_, hus⟩
    · rw [atom?, hopening]
      dsimp only
      rw [hparts]
      dsimp only
      rw [hclosing]
    · rw [Atom.marker, c.marker_eq_ofAny, ← hvalue]
      rfl

end

end Phrase

namespace Marker

open Phrase Token

/-! ### Whole texts -/

/-- A list of tokens is read if and only if the grammar derives it, as what it derives. -/
theorem ofTokens_eq_ok_iff {ts : Tokens} {m : Marker} :
    ofTokens ts = .ok m ↔ ∃ c : Condition, c.tokens = kinds ts ∧ c.marker = m := by
  constructor
  · intro h
    unfold ofTokens at h
    cases hr : conditions? ts with
    | error e =>
      rw [hr] at h
      nomatch h
    | ok r =>
      obtain ⟨c, hc, hkinds⟩ := exists_condition ts hr
      rw [hr] at h
      dsimp only at h
      split at h
      next hrest =>
        cases h
        refine ⟨c, ?_, ?_⟩
        · rw [hkinds, hrest]
          exact (List.append_nil _).symm
        · rw [c.marker_eq_ofAny, ← hc]
      next => nomatch h
  · rintro ⟨c, htokens, rfl⟩
    have hkinds : kinds ts = c.tokens ++ [] := by rw [htokens, List.append_nil]
    obtain ⟨r, hr, hvalue, hrest⟩ := c.conditions?_eq_ok hkinds ⟨nofun, nofun⟩ nofun
    have hnil : r.rest = [] := List.map_eq_nil_iff.1 hrest
    rw [ofTokens, hr]
    dsimp only
    split
    next => rw [c.marker_eq_ofAny, hvalue]
    next hcons =>
      rw [hnil] at hcons
      nomatch hcons

theorem parse_eq_ok_iff {text : String} {m : Marker} :
    parse text = .ok m ↔ ∃ c : Condition, Lexes text.toList c.tokens [] ∧ c.marker = m := by
  have hparse : parse text = .ok m ↔ read text.toList = .ok m := by
    unfold parse
    refine ⟨Outcome.of_mapError, fun h => ?_⟩
    rw [h]
    rfl
  rw [hparse, read]
  constructor
  · intro h
    cases hscan : scan text.toList with
    | error e =>
      rw [hscan] at h
      nomatch h
    | ok ts =>
      rw [hscan] at h
      obtain ⟨c, htokens, hmarker⟩ := ofTokens_eq_ok_iff.1 h
      exact ⟨c, htokens ▸ lexes_of_scan hscan, hmarker⟩
  · rintro ⟨c, hlexes, hmarker⟩
    obtain ⟨ts, hscan, hts⟩ := scan_eq_ok_iff.2 hlexes
    rw [hscan]
    exact ofTokens_eq_ok_iff.2 ⟨c, hts.symm, hmarker⟩

/-- A refusal quotes the text that was refused. -/
theorem exists_refusal {text : String} (h : ∀ m, parse text ≠ .ok m) :
    ∃ fault, parse text = .error ⟨text, fault⟩ := by
  unfold parse at h ⊢
  cases hread : read text.toList with
  | error fault => exact ⟨fault, rfl⟩
  | ok m =>
    rw [hread] at h
    exact absurd rfl (h m)

theorem refuses_reserved {text : String} {ts : List Token} {w rest : List Char}
    (h : Lexes text.toList ts (w ++ rest)) (hw : w = "not".toList ∨ w = "in".toList)
    (hstop : ∀ c ∈ rest.head?, continuesWord c = false) :
    parse text = .error
      ⟨text, .located (.unsupported (String.ofList w)) (String.ofList (w ++ rest))⟩ := by
  obtain ⟨us, -, hscan⟩ := scan_of_lexes h
  rw [scan_unsupported hw hstop] at hscan
  unfold parse read
  rw [hscan]
  rfl

/-- A text is read if and only if its tokens are derived by the grammar, and then as the condition
that their only derivation stands for, in which conjunctions and alternatives have two parts at least.
Every other text is refused and quoted: one whose tokens have a shape that no condition has (a chain
of comparisons, an unknown name, unbalanced parentheses, something after the end), and one with a
word `not` or `in`. -/
theorem parse_reads_grammar (text : String) :
    (∀ m, parse text = .ok m ↔
      ∃ c : Condition, Lexes text.toList c.tokens [] ∧ c.marker = m) ∧
    (∀ c c' : Condition, Lexes text.toList c.tokens [] → Lexes text.toList c'.tokens [] → c = c') ∧
    (∀ m, parse text = .ok m → m.Branching) ∧
    ((¬∃ c : Condition, Lexes text.toList c.tokens []) →
      ∃ fault, parse text = .error ⟨text, fault⟩) ∧
    (∀ ts, Lexes text.toList ts [] → Misformed ts → ∃ fault, parse text = .error ⟨text, fault⟩) ∧
    ∀ ts w rest, Lexes text.toList ts (w ++ rest) → w = "not".toList ∨ w = "in".toList →
      (∀ c ∈ rest.head?, continuesWord c = false) → parse text = .error
        ⟨text, .located (.unsupported (String.ofList w)) (String.ofList (w ++ rest))⟩ := by
  refine ⟨fun m => parse_eq_ok_iff, fun c c' h h' => ?_, fun m h => ?_, fun h => ?_,
    fun ts hts h => ?_, fun ts w rest => refuses_reserved⟩
  · exact c.tokens_injective (h.unique h')
  · obtain ⟨c, -, rfl⟩ := parse_eq_ok_iff.1 h
    exact c.branching
  · refine exists_refusal fun m hm => ?_
    obtain ⟨c, hc, -⟩ := parse_eq_ok_iff.1 hm
    exact h ⟨c, hc⟩
  · refine exists_refusal fun m hm => ?_
    obtain ⟨c, hc, -⟩ := parse_eq_ok_iff.1 hm
    exact c.not_misformed (hts.unique hc ▸ h)

/-- Parentheses group what they enclose, and leave no trace where there is nothing to group. -/
example : parse "((os_name == 'a')) and (extra == 'x' or (os_name != 'b' and extra == 'y'))" =
    .ok (.all [
      .compare ⟨.variable .osName, .equal, .literal "a"⟩,
      .any [
        .compare ⟨.extra, .equal, .literal "x"⟩,
        .all [
          .compare ⟨.variable .osName, .notEqual, .literal "b"⟩,
          .compare ⟨.extra, .equal, .literal "y"⟩]]]) := by
  cbv

end Marker

end Requisite
