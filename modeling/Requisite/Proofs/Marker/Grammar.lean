import Requisite.Marker.Token

/-!
# The grammar of markers

The grammar itself, apart from any reader of it.  A phrase is a derivation: it has the tokens that it
derives, in their order, and the condition that it stands for.

    condition   := conjunction ("or" conjunction)*
    conjunction := atom ("and" atom)*
    atom        := "(" condition ")" | operand comparator operand
    operand     := variable | "extra" | text

* `Phrase.Condition`, `Phrase.Conjunction`, `Phrase.Atom` — the derivations of each line;
* `Phrase.Condition.marker`, **`Phrase.Condition.marker_eq_ofAny`** — the condition that is derived, and
  how it is put together from the parts that a reader finds;
* **`Phrase.Condition.tokens_injective`** — no tokens are derived in two ways;
* **`Phrase.Condition.branching`** — a conjunction and an alternative have two parts at least;
* **`Phrase.Condition.not_misformed`** — some shapes of token lists that no derivation has.
-/

namespace Requisite

/-- The token of an operand. -/
def Operand.token : Operand → Token
  | .variable v => .word v.name
  | .extra => .word "extra"
  | .literal text => .text text

theorem Operand.token_injective {o o' : Operand} (h : o.token = o'.token) : o = o' := by
  have hextra : ∀ v : Variable, v.name ≠ "extra" := by
    intro v
    cases v <;> decide
  cases o <;> cases o' <;> simp only [token, Token.word.injEq, Token.text.injEq, reduceCtorEq] at h
  case variable.variable v v' =>
    have hv : some v = some v' := by rw [← Variable.ofName?_name v, h, Variable.ofName?_name]
    rw [Option.some.inj hv]
  case variable.extra v => exact absurd h (hextra v)
  case extra.variable v => exact absurd h.symm (hextra v)
  case extra.extra => rfl
  case literal.literal => rw [h]

theorem Operand.token_ne_opening (o : Operand) : o.token ≠ .opening := by
  cases o <;> nofun

namespace Marker

theorem ofAll_eq {ms : List Marker} (h : 2 ≤ ms.length) : ofAll ms = all ms := by
  match ms with
  | _ :: _ :: _ => rfl

theorem ofAny_eq {ms : List Marker} (h : 2 ≤ ms.length) : ofAny ms = any ms := by
  match ms with
  | _ :: _ :: _ => rfl

end Marker

namespace Phrase

mutual

/-- A derivation of a condition: conjunctions with `or` between them. -/
inductive Condition
  | only (c : Conjunction)
  | or (c : Conjunction) (more : Condition)

/-- A derivation of a conjunction: atoms with `and` between them. -/
inductive Conjunction
  | only (a : Atom)
  | and (a : Atom) (more : Conjunction)

/-- A derivation of an atom: a comparison, or a condition in parentheses. -/
inductive Atom
  | comparison (c : Comparison)
  | enclosed (c : Condition)

end

/-- The tokens of a comparison. -/
def comparisonTokens (c : Comparison) : List Token :=
  [c.lhs.token, .comparator c.op, c.rhs.token]

mutual

/-- The tokens that are derived. -/
def Condition.tokens : Condition → List Token
  | .only c => c.tokens
  | .or c more => c.tokens ++ .or :: more.tokens

/-- The tokens that are derived. -/
def Conjunction.tokens : Conjunction → List Token
  | .only a => a.tokens
  | .and a more => a.tokens ++ .and :: more.tokens

/-- The tokens that are derived. -/
def Atom.tokens : Atom → List Token
  | .comparison c => comparisonTokens c
  | .enclosed c => .opening :: c.tokens ++ [.closing]

end

mutual

/-- The condition that a derivation stands for: what is joined by nothing stands for itself. -/
def Condition.marker : Condition → Marker
  | .only c => c.marker
  | .or c more => .any (c.marker :: more.parts)

/-- The conditions between the `or`s. -/
def Condition.parts : Condition → List Marker
  | .only c => [c.marker]
  | .or c more => c.marker :: more.parts

/-- The condition that a conjunction stands for. -/
def Conjunction.marker : Conjunction → Marker
  | .only a => a.marker
  | .and a more => .all (a.marker :: more.parts)

/-- The conditions between the `and`s. -/
def Conjunction.parts : Conjunction → List Marker
  | .only a => [a.marker]
  | .and a more => a.marker :: more.parts

/-- The condition that an atom stands for: parentheses leave no trace. -/
def Atom.marker : Atom → Marker
  | .comparison c => .compare c
  | .enclosed c => c.marker

end

theorem Condition.length_parts_pos (c : Condition) : 0 < c.parts.length := by
  cases c <;> exact Nat.succ_pos _

theorem Conjunction.length_parts_pos (c : Conjunction) : 0 < c.parts.length := by
  cases c <;> exact Nat.succ_pos _

/-- The condition is what a reader makes of its parts. -/
theorem Condition.marker_eq_ofAny (c : Condition) : c.marker = Marker.ofAny c.parts := by
  cases c with
  | only c => rfl
  | or c more =>
    have htwo : 2 ≤ (c.marker :: more.parts).length := Nat.succ_le_succ more.length_parts_pos
    exact (Marker.ofAny_eq htwo).symm

/-- The condition is what a reader makes of its parts. -/
theorem Conjunction.marker_eq_ofAll (c : Conjunction) : c.marker = Marker.ofAll c.parts := by
  cases c with
  | only a => rfl
  | and a more =>
    have htwo : 2 ≤ (a.marker :: more.parts).length := Nat.succ_le_succ more.length_parts_pos
    exact (Marker.ofAll_eq htwo).symm

/-! ### Only one derivation -/

/-- The tokens go on with neither `and` nor `or`. -/
def EndsCondition (ts : List Token) : Prop :=
  ts.head? ≠ some .and ∧ ts.head? ≠ some .or

theorem comparisonTokens_append_inj {c c' : Comparison} {ts ts' : List Token}
    (h : comparisonTokens c ++ ts = comparisonTokens c' ++ ts') : c = c' ∧ ts = ts' := by
  obtain ⟨lhs, op, rhs⟩ := c
  obtain ⟨lhs', op', rhs'⟩ := c'
  simp only [comparisonTokens, List.cons_append, List.nil_append, List.cons.injEq,
    Token.comparator.injEq] at h
  obtain ⟨hlhs, rfl, hrhs, hts⟩ := h
  rw [Operand.token_injective hlhs, Operand.token_injective hrhs]
  exact ⟨rfl, hts⟩

mutual

/-- The derivation at the start of some tokens is determined by them, and so is where it ends. -/
theorem Condition.tokens_append_inj : ∀ (c c' : Condition) {ts ts' : List Token},
    EndsCondition ts → EndsCondition ts' → c.tokens ++ ts = c'.tokens ++ ts' →
      c = c' ∧ ts = ts'
  | .only c, .only c', ts, ts', hts, hts', h => by
    obtain ⟨rfl, rfl⟩ := c.tokens_append_inj c' hts.1 hts'.1 h
    exact ⟨rfl, rfl⟩
  | .only c, .or c' more', ts, ts', hts, hts', h => by
    simp only [Condition.tokens, List.append_assoc, List.cons_append] at h
    obtain ⟨-, rfl⟩ := c.tokens_append_inj c' hts.1 (by simp) h
    exact absurd rfl hts.2
  | .or c more, .only c', ts, ts', hts, hts', h => by
    simp only [Condition.tokens, List.append_assoc, List.cons_append] at h
    obtain ⟨-, rfl⟩ := c.tokens_append_inj c' (by simp) hts'.1 h
    exact absurd rfl hts'.2
  | .or c more, .or c' more', ts, ts', hts, hts', h => by
    simp only [Condition.tokens, List.append_assoc, List.cons_append] at h
    obtain ⟨rfl, hmore⟩ := c.tokens_append_inj c' (by simp) (by simp) h
    obtain ⟨rfl, rfl⟩ := more.tokens_append_inj more' hts hts' (List.cons.inj hmore).2
    exact ⟨rfl, rfl⟩

theorem Conjunction.tokens_append_inj : ∀ (c c' : Conjunction) {ts ts' : List Token},
    ts.head? ≠ some .and → ts'.head? ≠ some .and → c.tokens ++ ts = c'.tokens ++ ts' →
      c = c' ∧ ts = ts'
  | .only a, .only a', ts, ts', hts, hts', h => by
    obtain ⟨rfl, rfl⟩ := a.tokens_append_inj a' h
    exact ⟨rfl, rfl⟩
  | .only a, .and a' more', ts, ts', hts, hts', h => by
    simp only [Conjunction.tokens, List.append_assoc, List.cons_append] at h
    obtain ⟨-, rfl⟩ := a.tokens_append_inj a' h
    exact absurd rfl hts
  | .and a more, .only a', ts, ts', hts, hts', h => by
    simp only [Conjunction.tokens, List.append_assoc, List.cons_append] at h
    obtain ⟨-, rfl⟩ := a.tokens_append_inj a' h
    exact absurd rfl hts'
  | .and a more, .and a' more', ts, ts', hts, hts', h => by
    simp only [Conjunction.tokens, List.append_assoc, List.cons_append] at h
    obtain ⟨rfl, hmore⟩ := a.tokens_append_inj a' h
    obtain ⟨rfl, rfl⟩ := more.tokens_append_inj more' hts hts' (List.cons.inj hmore).2
    exact ⟨rfl, rfl⟩

theorem Atom.tokens_append_inj : ∀ (a a' : Atom) {ts ts' : List Token},
    a.tokens ++ ts = a'.tokens ++ ts' → a = a' ∧ ts = ts'
  | .comparison c, .comparison c', ts, ts', h => by
    obtain ⟨rfl, rfl⟩ := comparisonTokens_append_inj h
    exact ⟨rfl, rfl⟩
  | .comparison c, .enclosed c', ts, ts', h => absurd (List.cons.inj h).1 c.lhs.token_ne_opening
  | .enclosed c, .comparison c', ts, ts', h =>
    absurd (List.cons.inj h).1.symm c'.lhs.token_ne_opening
  | .enclosed c, .enclosed c', ts, ts', h => by
    simp only [Atom.tokens, List.append_assoc, List.cons_append, List.cons.injEq, true_and,
      List.nil_append] at h
    obtain ⟨rfl, hts⟩ := c.tokens_append_inj c' (by simp [EndsCondition])
      (by simp [EndsCondition]) h
    exact ⟨rfl, (List.cons.inj hts).2⟩

end

/-- No tokens are derived in two ways. -/
theorem Condition.tokens_injective {c c' : Condition} (h : c.tokens = c'.tokens) : c = c' := by
  have hend : EndsCondition [] := by simp [EndsCondition]
  exact (c.tokens_append_inj c' hend hend (by rw [h])).1

/-! ### The conditions that are derived -/

end Phrase

namespace Marker

mutual

/-- Every conjunction and every alternative within the condition has two parts at least. -/
def Branching : Marker → Prop
  | .compare _ => True
  | .all ms => 2 ≤ ms.length ∧ BranchingAll ms
  | .any ms => 2 ≤ ms.length ∧ BranchingAll ms

/-- All of the conditions are branching. -/
def BranchingAll : List Marker → Prop
  | [] => True
  | m :: ms => m.Branching ∧ BranchingAll ms

end

end Marker

namespace Phrase

mutual

/-- A conjunction and an alternative that are derived have two parts at least. -/
theorem Condition.branching : ∀ c : Condition, c.marker.Branching
  | .only c => c.branching
  | .or c more => ⟨Nat.succ_le_succ more.length_parts_pos, c.branching, more.branchingAll_parts⟩

theorem Condition.branchingAll_parts : ∀ c : Condition, Marker.BranchingAll c.parts
  | .only c => ⟨c.branching, trivial⟩
  | .or c more => ⟨c.branching, more.branchingAll_parts⟩

theorem Conjunction.branching : ∀ c : Conjunction, c.marker.Branching
  | .only a => a.branching
  | .and a more => ⟨Nat.succ_le_succ more.length_parts_pos, a.branching, more.branchingAll_parts⟩

theorem Conjunction.branchingAll_parts : ∀ c : Conjunction, Marker.BranchingAll c.parts
  | .only a => ⟨a.branching, trivial⟩
  | .and a more => ⟨a.branching, more.branchingAll_parts⟩

theorem Atom.branching : ∀ a : Atom, a.marker.Branching
  | .comparison _ => trivial
  | .enclosed c => c.branching

end

/-! ### Tokens without a derivation -/

mutual

/-- What holds of the tokens of comparisons, and is kept by parentheses and by joining, holds of all
tokens that are derived. -/
theorem Condition.tokens_induction {P : List Token → Prop}
    (comparison : ∀ c, P (comparisonTokens c))
    (enclosed : ∀ ts, P ts → P (.opening :: ts ++ [.closing]))
    (joined : ∀ t ts us, t = .and ∨ t = .or → P ts → P us → P (ts ++ t :: us)) :
    ∀ c : Condition, P c.tokens
  | .only c => c.tokens_induction comparison enclosed joined
  | .or c more => joined .or _ _ (Or.inr rfl) (c.tokens_induction comparison enclosed joined)
      (more.tokens_induction comparison enclosed joined)

theorem Conjunction.tokens_induction {P : List Token → Prop}
    (comparison : ∀ c, P (comparisonTokens c))
    (enclosed : ∀ ts, P ts → P (.opening :: ts ++ [.closing]))
    (joined : ∀ t ts us, t = .and ∨ t = .or → P ts → P us → P (ts ++ t :: us)) :
    ∀ c : Conjunction, P c.tokens
  | .only a => a.tokens_induction comparison enclosed joined
  | .and a more => joined .and _ _ (Or.inl rfl) (a.tokens_induction comparison enclosed joined)
      (more.tokens_induction comparison enclosed joined)

theorem Atom.tokens_induction {P : List Token → Prop}
    (comparison : ∀ c, P (comparisonTokens c))
    (enclosed : ∀ ts, P ts → P (.opening :: ts ++ [.closing]))
    (joined : ∀ t ts us, t = .and ∨ t = .or → P ts → P us → P (ts ++ t :: us)) :
    ∀ a : Atom, P a.tokens
  | .comparison c => comparison c
  | .enclosed c => enclosed _ (c.tokens_induction comparison enclosed joined)

end

/-- A comparison sign. -/
def IsSign (t : Token) : Prop :=
  ∃ op, t = .comparator op

theorem not_isSign_and : ¬IsSign .and := nofun

theorem not_isSign_or : ¬IsSign .or := nofun

theorem not_isSign_opening : ¬IsSign .opening := nofun

theorem not_isSign_closing : ¬IsSign .closing := nofun

theorem Operand.not_isSign_token (o : Operand) : ¬IsSign o.token := by
  rintro ⟨op, h⟩
  cases o <;> nomatch h

/-- No two comparison signs have one token between them. -/
def Unchained (ts : List Token) : Prop :=
  ∀ a k t k' b, ts = a ++ k :: t :: k' :: b → IsSign k → ¬IsSign k'

/-- Every word is `extra` or the name of a variable. -/
def Known (ts : List Token) : Prop :=
  ∀ name, .word name ∈ ts → name = "extra" ∨ ∃ v : Variable, name = v.name

/-- There are as many closing as opening parentheses, and never more of them from the start. -/
def Balanced (ts : List Token) : Prop :=
  ts.count .closing = ts.count .opening ∧
    ∀ a b, ts = a ++ b → a.count .closing ≤ a.count .opening

/-- A condition, and further tokens that cannot follow one. -/
def Trailing (ts : List Token) : Prop :=
  ∃ (c : Condition) (us : List Token), us ≠ [] ∧ EndsCondition us ∧ ts = c.tokens ++ us

/-- Shapes that no condition has. -/
def Misformed (ts : List Token) : Prop :=
  ¬Unchained ts ∨ ¬Known ts ∨ ¬Balanced ts ∨ Trailing ts

theorem Condition.known (c : Condition) : Known c.tokens := by
  refine c.tokens_induction (P := Known) ?_ ?_ ?_
  · intro c name h
    have hoperand : ∀ o : Operand, o.token = .word name →
        name = "extra" ∨ ∃ v : Variable, name = v.name := by
      intro o ho
      cases o with
      | «variable» v =>
        cases ho
        exact Or.inr ⟨v, rfl⟩
      | extra =>
        cases ho
        exact Or.inl rfl
      | literal text => nomatch ho
    simp only [comparisonTokens, List.mem_cons, List.not_mem_nil, or_false, reduceCtorEq,
      false_or] at h
    rcases h with h | h
    · exact hoperand _ h.symm
    · exact hoperand _ h.symm
  · intro ts ih name h
    exact ih name (by simpa using h)
  · intro t ts us ht ih ih' name h
    rcases List.mem_append.1 h with h | h
    · exact ih name h
    · rcases List.mem_cons.1 h with h | h
      · rcases ht with rfl | rfl <;> nomatch h
      · exact ih' name h

/-- Unchained, with no sign at either end. -/
structure Apart (ts : List Token) : Prop where
  unchained : Unchained ts
  head : ∀ t ∈ ts.head?, ¬IsSign t
  last : ∀ t ∈ ts.getLast?, ¬IsSign t

theorem Unchained.append {ts us : List Token} (hts : Unchained ts) (hus : Unchained us)
    (hlast : ∀ t ∈ ts.getLast?, ¬IsSign t) (hhead : ∀ t ∈ us.head?, ¬IsSign t) :
    Unchained (ts ++ us) := by
  intro a k t k' b h hk hk'
  rcases List.append_eq_append_iff.1 h with ⟨c, -, hus'⟩ | ⟨c, hts', hc⟩
  · exact hus c k t k' b hus' hk hk'
  · -- where the signs stand in `ts` and in `us`
    match c with
    | [] => exact hhead k (by rw [← List.nil_append us, ← hc]; rfl) hk
    | [_] =>
      obtain ⟨rfl, -⟩ := List.cons.inj hc
      exact hlast k (by rw [hts', List.getLast?_concat]; rfl) hk
    | [_, _] =>
      simp only [List.cons_append, List.nil_append, List.cons.injEq] at hc
      exact hhead k' (by rw [← hc.2.2]; rfl) hk'
    | _ :: _ :: _ :: c =>
      simp only [List.cons_append, List.cons.injEq] at hc
      obtain ⟨rfl, rfl, rfl, -⟩ := hc
      exact hts a k t k' c hts' hk hk'

theorem Apart.append {ts us : List Token} (hts : Apart ts) (hus : Apart us) : Apart (ts ++ us) := by
  refine ⟨hts.unchained.append hus.unchained hts.last hus.head, ?_, ?_⟩
  · intro t ht
    rw [List.head?_append] at ht
    rcases Option.or_eq_some_iff.1 ht with h | ⟨-, h⟩
    · exact hts.head t h
    · exact hus.head t h
  · intro t ht
    rw [List.getLast?_append] at ht
    rcases Option.or_eq_some_iff.1 ht with h | ⟨-, h⟩
    · exact hus.last t h
    · exact hts.last t h

theorem apart_singleton {t : Token} (ht : ¬IsSign t) : Apart [t] := by
  refine ⟨fun a k u k' b h => ?_, fun u hu => ?_, fun u hu => ?_⟩
  · have := congrArg List.length h
    simp at this
    omega
  · cases hu
    exact ht
  · cases hu
    exact ht

theorem Condition.apart (c : Condition) : Apart c.tokens := by
  refine c.tokens_induction (P := Apart) ?_ ?_ ?_
  · intro c
    refine ⟨fun a k u k' b h hk hk' => ?_, fun u hu => ?_, fun u hu => ?_⟩
    · match a with
      | [] =>
        cases h
        exact Operand.not_isSign_token _ hk
      | _ :: a =>
        have hlength := congrArg List.length h
        simp only [comparisonTokens, List.length_append, List.length_cons, List.length_nil]
          at hlength
        omega
    · cases hu
      exact Operand.not_isSign_token _
    · cases hu
      exact Operand.not_isSign_token _
  · intro ts ih
    exact ((apart_singleton not_isSign_opening).append ih).append (apart_singleton not_isSign_closing)
  · intro t ts us ht ih ih'
    have hsep : ¬IsSign t := by
      rcases ht with rfl | rfl
      · exact not_isSign_and
      · exact not_isSign_or
    exact ih.append ((apart_singleton hsep).append ih')

theorem balanced_of_notMem {ts : List Token} (hopening : .opening ∉ ts) (hclosing : .closing ∉ ts) :
    Balanced ts := by
  refine ⟨?_, fun a b h => ?_⟩
  · rw [List.count_eq_zero.2 hopening, List.count_eq_zero.2 hclosing]
  · rw [List.count_eq_zero.2 fun ha => hclosing (h ▸ List.mem_append_left b ha)]
    exact Nat.zero_le _

theorem Balanced.append {ts us : List Token} (hts : Balanced ts) (hus : Balanced us) :
    Balanced (ts ++ us) := by
  refine ⟨?_, fun a b h => ?_⟩
  · rw [List.count_append, List.count_append, hts.1, hus.1]
  · rcases List.append_eq_append_iff.1 h with ⟨c, rfl, hc⟩ | ⟨c, hc, -⟩
    · rw [List.count_append, List.count_append, hts.1]
      exact Nat.add_le_add_left (hus.2 c b hc) _
    · exact hts.2 a c hc

theorem Balanced.enclosed {ts : List Token} (hts : Balanced ts) :
    Balanced (.opening :: ts ++ [.closing]) := by
  have htotal := hts.1
  refine ⟨?_, fun a b h => ?_⟩
  · simp only [List.count_append, List.count_cons, List.count_nil]
    simp [htotal]
  · cases a with
    | nil => exact Nat.le_refl 0
    | cons t a =>
      obtain ⟨rfl, htail⟩ := List.cons.inj h
      -- the opening parenthesis stands for one more closing one
      have hclosing : a.count .closing ≤ a.count .opening + 1 := by
        rcases List.append_eq_append_iff.1 htail with ⟨c, rfl, hc⟩ | ⟨c, hc, -⟩
        · have hone : c.count .closing ≤ [Token.closing].count .closing := by
            rw [hc, List.count_append]
            exact Nat.le_add_right _ _
          rw [List.count_append, List.count_append, hts.1]
          have : [Token.closing].count .closing = 1 := rfl
          omega
        · exact Nat.le_succ_of_le (hts.2 a c hc)
      simpa using hclosing

theorem Condition.balanced (c : Condition) : Balanced c.tokens := by
  refine c.tokens_induction (P := Balanced) ?_ (fun ts => Balanced.enclosed) ?_
  · intro c
    refine balanced_of_notMem ?_ ?_ <;> obtain ⟨lhs, op, rhs⟩ := c <;> cases lhs <;> cases rhs <;>
      simp [comparisonTokens, Operand.token]
  · intro t ts us ht ih ih'
    have hsep : Balanced [t] := by
      rcases ht with rfl | rfl
      · exact balanced_of_notMem (by decide) (by decide)
      · exact balanced_of_notMem (by decide) (by decide)
    exact ih.append (hsep.append ih')

theorem Condition.not_trailing (c : Condition) : ¬Trailing c.tokens := by
  rintro ⟨c', us, hne, hus, h⟩
  have hend : EndsCondition [] := by simp [EndsCondition]
  exact hne (c'.tokens_append_inj c hus hend (by rw [List.append_nil, h])).2

/-- No condition has one of these shapes. -/
theorem Condition.not_misformed (c : Condition) : ¬Misformed c.tokens := by
  rintro (h | h | h | h)
  · exact h c.apart.unchained
  · exact h c.known
  · exact h c.balanced
  · exact c.not_trailing h

end Phrase

end Requisite
