import Mathlib.Data.List.Basic
import Mathlib.Data.List.DropRight
import Mathlib.Data.List.TakeWhile
import Requisite.Proofs.Text.Classes
import Requisite.Text.Cut

/-!
# Pieces of a text

What a text is trimmed to and split into are parts of it.

* **`Text.exists_blanks_trim`** — a text is what it is trimmed to, between blanks;
* **`Text.trim_append_blanks`**, **`Text.trim_blanks_append`** — blanks behind a text or before it do
  not matter to what it is trimmed to;
* `Text.Blankless`, `Text.Without` — a text without blanks or some other characters, and so its parts;
* `Text.Ended` — a text that does not end in a blank, which trimming its end leaves as it is;
* **`Text.isInfix_of_mem_splitOn`**, **`Text.notMem_of_mem_splitOn`** — the pieces between separators;
* **`Text.exists_run`**, **`Text.run_unique`** — the run of characters inside or outside a class that
  a text starts with.
-/

namespace Requisite.Text

/-- No blank stands in a text. -/
def Blankless (cs : List Char) : Prop :=
  ∀ c ∈ cs, isBlank c = false

instance (cs : List Char) : Decidable (Blankless cs) :=
  decidableForallMem (fun c => isBlank c = false) cs

theorem Blankless.append {cs ds : List Char} (hcs : Blankless cs) (hds : Blankless ds) :
    Blankless (cs ++ ds) :=
  fun c hc => (List.mem_append.1 hc).elim (hcs c) (hds c)

/-- None of some characters stands in a text. -/
def Without (signs cs : List Char) : Prop :=
  ∀ c ∈ signs, c ∉ cs

instance (signs cs : List Char) : Decidable (Without signs cs) :=
  decidableForallMem (· ∉ cs) signs

@[simp]
theorem without_nil (cs : List Char) : Without [] cs :=
  nofun

@[simp]
theorem without_cons {c : Char} {signs cs : List Char} :
    Without (c :: signs) cs ↔ c ∉ cs ∧ Without signs cs :=
  List.forall_mem_cons

theorem Without.of_isInfix {signs cs ds : List Char} (hin : cs <:+: ds) (h : Without signs ds) :
    Without signs cs :=
  fun c hc hmem => h c hc (hin.subset hmem)

theorem Without.append {signs cs ds : List Char} (hcs : Without signs cs) (hds : Without signs ds) :
    Without signs (cs ++ ds) :=
  fun c hc hmem => (List.mem_append.1 hmem).elim (hcs c hc) (hds c hc)

theorem Without.of_subset {signs signs' cs : List Char} (hsub : signs ⊆ signs')
    (h : Without signs' cs) : Without signs cs :=
  fun c hc => h c (hsub hc)

/-- A character of a class is none of the signs outside it. -/
theorem notMem_of_class {p : Char → Bool} {signs : List Char} {c : Char} (h : p c = true)
    (hsigns : ∀ c ∈ signs, p c = false) : c ∉ signs := by
  intro hc
  rw [hsigns c hc] at h
  nomatch h

/-- A text of characters of a class has none outside it. -/
theorem without_of_forall {p : Char → Bool} {signs cs : List Char} (h : ∀ c ∈ cs, p c = true)
    (hsigns : ∀ c ∈ signs, p c = false) : Without signs cs :=
  fun c hc hmem => notMem_of_class (h c hmem) hsigns hc

/-- Texts without signs of one kind and of another have none of both. -/
theorem Without.and {signs signs' cs : List Char} (h : Without signs cs) (h' : Without signs' cs) :
    Without (signs ++ signs') cs :=
  fun c hc => (List.mem_append.1 hc).elim (h c) (h' c)

/-- A word without a separator comes before the first one. -/
theorem exists_append_of_notMem {sep : Char} {w rest a b : List Char} (hsep : sep ∉ w)
    (h : w ++ rest = a ++ sep :: b) : ∃ q, a = w ++ q ∧ rest = q ++ sep :: b := by
  rcases List.append_eq_append_iff.1 h with ⟨q, ha, hrest⟩ | ⟨q, hw, hq⟩
  · exact ⟨q, ha, hrest⟩
  · cases q with
    | nil => exact ⟨[], by rw [hw, List.append_nil, List.append_nil], hq.symm⟩
    | cons c q =>
      refine absurd ?_ hsep
      rw [hw, (List.cons.inj hq).1]
      exact List.mem_append_right a (List.mem_cons_self ..)

/-! ### Trimming -/

theorem exists_blanks_trimEnd (cs : List Char) :
    ∃ b, cs = trimEnd cs ++ b ∧ ∀ c ∈ b, isBlank c = true := by
  refine ⟨(cs.reverse.takeWhile isBlank).reverse, ?_, fun c hc => ?_⟩
  · rw [trimEnd, ← List.reverse_append, List.takeWhile_append_dropWhile, List.reverse_reverse]
  · exact List.mem_takeWhile_imp (List.mem_reverse.1 hc)

/-- A text is what it is trimmed to, between blanks. -/
theorem exists_blanks_trim (cs : List Char) : ∃ a b, cs = a ++ trim cs ++ b ∧
    (∀ c ∈ a, isBlank c = true) ∧ ∀ c ∈ b, isBlank c = true := by
  obtain ⟨b, hb, hblank⟩ := exists_blanks_trimEnd (trimStart cs)
  refine ⟨cs.takeWhile isBlank, b, ?_, fun c hc => List.mem_takeWhile_imp hc, hblank⟩
  rw [List.append_assoc, trim, ← hb, trimStart, List.takeWhile_append_dropWhile]

theorem isInfix_trim (cs : List Char) : trim cs <:+: cs := by
  obtain ⟨a, b, hcs, -, -⟩ := exists_blanks_trim cs
  exact ⟨a, b, hcs.symm⟩

theorem trim_trim (cs : List Char) : trim (trim cs) = trim cs :=
  trim_eq_self (head?_trim cs) (getLast?_trim cs)

/-- Blanks behind a text do not matter to what it is trimmed to. -/
theorem trim_append_blanks {b : List Char} (hb : ∀ c ∈ b, isBlank c = true) (cs : List Char) :
    trim (cs ++ b) = trim cs := by
  have hend : ∀ ds : List Char, trimEnd (ds ++ b) = trimEnd ds := by
    intro ds
    rw [trimEnd, List.reverse_append,
      List.dropWhile_append_of_pos fun c hc => hb c (List.mem_reverse.1 hc), trimEnd]
  rw [trim, trim, trimStart, List.dropWhile_append, trimStart]
  split
  next hempty =>
    have hdrop : b.dropWhile isBlank = [] := List.dropWhile_eq_nil_iff.2 hb
    rw [List.isEmpty_iff.1 hempty, hdrop]
  next => exact hend _

/-- Blanks before a text do not matter to what it is trimmed to. -/
theorem trim_blanks_append {a : List Char} (ha : ∀ c ∈ a, isBlank c = true) (cs : List Char) :
    trim (a ++ cs) = trim cs := by
  rw [trim, trim, trimStart, trimStart, List.dropWhile_append_of_pos ha]

theorem trim_cons_blank {c : Char} (hc : isBlank c = true) (cs : List Char) :
    trim (c :: cs) = trim cs := by
  rw [trim, trimStart, List.dropWhile_cons_of_pos hc, trim, trimStart]

theorem trim_trimStart (cs : List Char) : trim (trimStart cs) = trim cs := by
  rw [trim, trim, trimStart, trimStart, List.dropWhile_idempotent]

theorem trim_trimEnd (cs : List Char) : trim (trimEnd cs) = trim cs := by
  obtain ⟨b, hb, hblank⟩ := exists_blanks_trimEnd cs
  have htrim := trim_append_blanks hblank (trimEnd cs)
  rw [← hb] at htrim
  exact htrim.symm

theorem trimEnd_cons {c : Char} (hc : isBlank c = false) (cs : List Char) :
    trimEnd (c :: cs) = c :: trimEnd cs := by
  have hkeep : [c].dropWhile isBlank = [c] :=
    List.dropWhile_cons_of_neg (Bool.eq_false_iff.1 hc)
  rw [trimEnd, trimEnd, List.reverse_cons, List.dropWhile_append, hkeep]
  split
  next hempty => rw [List.isEmpty_iff.1 hempty]; rfl
  next => rw [List.reverse_append]; rfl

theorem trim_cons {c : Char} (hc : isBlank c = false) (cs : List Char) :
    trim (c :: cs) = c :: trimEnd cs := by
  rw [trim, trimStart, List.dropWhile_cons_of_neg (Bool.eq_false_iff.1 hc),
    trimEnd_cons hc]

/-- Trimming the end of a text trims its last part, if something is left of that. -/
theorem trimEnd_append (cs : List Char) {ds : List Char} (h : trimEnd ds ≠ []) :
    trimEnd (cs ++ ds) = cs ++ trimEnd ds := by
  rw [trimEnd, List.reverse_append, List.dropWhile_append, if_neg, List.reverse_append,
    List.reverse_reverse, trimEnd]
  rw [List.isEmpty_iff, ← List.reverse_eq_nil_iff]
  exact h

/-- Trimming the end of a text leaves a word at its start. -/
theorem trimEnd_word {w : List Char} (hw : Blankless w) (cs : List Char) :
    trimEnd (w ++ cs) = w ++ trimEnd cs := by
  induction w with
  | nil => rfl
  | cons c w ih =>
    obtain ⟨hc, hw⟩ := List.forall_mem_cons.1 hw
    rw [List.cons_append, trimEnd_cons hc, ih hw, List.cons_append]

theorem trim_word {w : List Char} (hw : Blankless w) (hne : w ≠ []) (cs : List Char) :
    trim (w ++ cs) = w ++ trimEnd cs := by
  obtain ⟨c, w, rfl⟩ := List.exists_cons_of_ne_nil hne
  have hc := hw c (List.mem_cons_self ..)
  rw [List.cons_append, trim_cons hc, ← trimEnd_cons hc, ← List.cons_append, trimEnd_word hw]

theorem notMem_trimEnd {c : Char} {cs : List Char} (h : c ∉ cs) : c ∉ trimEnd cs := by
  obtain ⟨b, hb, -⟩ := exists_blanks_trimEnd cs
  rw [hb] at h
  exact fun hc => h (List.mem_append_left b hc)

theorem after?_trimEnd {lead : String} {cs : List Char} (h : after? lead cs = none) :
    after? lead (trimEnd cs) = none := by
  rw [Option.eq_none_iff_forall_ne_some] at h ⊢
  intro rest hrest
  obtain ⟨b, hb, -⟩ := exists_blanks_trimEnd cs
  refine h (rest ++ b) (after?_eq_some.2 ?_)
  rw [hb, after?_eq_some.1 hrest, List.append_assoc]

/-! ### The end of a text -/

/-- A text does not end in a blank. -/
def Ended (cs : List Char) : Prop :=
  ∀ c ∈ cs.getLast?, isBlank c = false

instance (cs : List Char) : Decidable (Ended cs) :=
  Option.decidableForallMem cs.getLast?

theorem ended_append {cs ds : List Char} (h : ds ≠ []) : Ended (cs ++ ds) ↔ Ended ds := by
  rw [Ended, Ended, List.getLast?_append_of_ne_nil _ h]

theorem ended_of_word {w : List Char} (hw : Blankless w) : Ended w :=
  fun c hc => hw c (List.mem_of_mem_getLast? hc)

theorem ended_word {w cs : List Char} (hw : Blankless w) :
    Ended (w ++ cs) ↔ Ended cs := by
  cases cs with
  | nil =>
    rw [List.append_nil]
    exact iff_of_true (ended_of_word hw) nofun
  | cons c cs => exact ended_append (List.cons_ne_nil c cs)

theorem ended_trim (cs : List Char) : Ended (trim cs) := by
  intro c hc
  have hlast := getLast?_trim cs
  rw [Option.mem_def.1 hc] at hlast
  exact Bool.eq_false_iff.2 fun h => hlast (congrArg some h)

theorem trimEnd_eq_self_iff {cs : List Char} : trimEnd cs = cs ↔ Ended cs := by
  constructor
  · intro h c hc
    have hhead := List.head?_dropWhile_not isBlank cs.reverse
    rw [← h, trimEnd, List.getLast?_reverse] at hc
    rw [Option.mem_def.1 hc] at hhead
    exact hhead
  · intro h
    rw [Ended, ← List.head?_reverse] at h
    rw [trimEnd]
    cases hcs : cs.reverse with
    | nil => rw [List.dropWhile_nil, ← hcs, List.reverse_reverse]
    | cons c ds =>
      rw [hcs] at h
      rw [List.dropWhile_cons_of_neg (Bool.eq_false_iff.1 (h c rfl)), ← hcs,
        List.reverse_reverse]

theorem ofList_trimEnd {s : String} : String.ofList (trimEnd s.toList) = s ↔ Ended s.toList := by
  rw [← String.toList_inj, String.toList_ofList, trimEnd_eq_self_iff]

theorem trim_of_ended {c : Char} {cs : List Char} (hc : isBlank c = false) (h : Ended (c :: cs)) :
    trim (c :: cs) = c :: cs := by
  rw [trim_cons hc, ← trimEnd_cons hc, trimEnd_eq_self_iff.2 h]

theorem trim_of_blankless {cs : List Char} (h : Blankless cs) : trim cs = cs := by
  cases cs with
  | nil => rfl
  | cons c cs => exact trim_of_ended (h c (List.mem_cons_self ..)) (ended_of_word h)

/-! ### Splitting -/

theorem isInfix_intercalate (sep : Char) {ls : List (List Char)} {l : List Char} (h : l ∈ ls) :
    l <:+: [sep].intercalate ls := by
  induction ls with
  | nil => nomatch h
  | cons k ls ih =>
    cases ls with
    | nil =>
      refine ⟨[], [], ?_⟩
      rw [List.mem_singleton.1 h, List.intercalate_singleton, List.nil_append, List.append_nil]
    | cons k' ls =>
      rw [List.intercalate_cons_cons]
      rcases List.mem_cons.1 h with rfl | h
      · exact ⟨[], _, by rw [List.nil_append, List.append_assoc]⟩
      · exact (ih h).trans (List.suffix_append _ _).isInfix

theorem mem_intercalate {sep c : Char} {ls : List (List Char)} (h : c ∈ [sep].intercalate ls) :
    c = sep ∨ ∃ l ∈ ls, c ∈ l := by
  induction ls with
  | nil => nomatch h
  | cons l ls ih =>
    cases ls with
    | nil =>
      rw [List.intercalate_singleton] at h
      exact Or.inr ⟨l, List.mem_cons_self .., h⟩
    | cons l' ls =>
      rw [List.intercalate_cons_cons, List.mem_append, List.mem_append, List.mem_singleton] at h
      rcases h with (h | rfl) | h
      · exact Or.inr ⟨l, List.mem_cons_self .., h⟩
      · exact Or.inl rfl
      · refine (ih h).imp_right fun ⟨piece, hpiece, hc⟩ => ?_
        exact ⟨piece, List.mem_cons_of_mem l hpiece, hc⟩

theorem Without.intercalate {signs : List Char} {sep : Char} {ls : List (List Char)}
    (h : ∀ l ∈ ls, Without signs l) (hsep : sep ∉ signs) : Without signs ([sep].intercalate ls) := by
  intro c hc hmem
  rcases mem_intercalate hmem with rfl | ⟨l, hl, hmem⟩
  · exact hsep hc
  · exact h l hl c hc hmem

theorem Blankless.intercalate {sep : Char} {ls : List (List Char)} (h : ∀ l ∈ ls, Blankless l)
    (hsep : isBlank sep = false) : Blankless ([sep].intercalate ls) := by
  intro c hmem
  rcases mem_intercalate hmem with rfl | ⟨l, hl, hmem⟩
  · exact hsep
  · exact h l hl c hmem

theorem isInfix_of_mem_splitOn {sep : Char} {cs l : List Char} (h : l ∈ cs.splitOn sep) :
    l <:+: cs := by
  have hin := isInfix_intercalate sep h
  rwa [List.intercalate_splitOn] at hin

theorem splitOn_of_notMem {sep : Char} {cs : List Char} (h : sep ∉ cs) : cs.splitOn sep = [cs] := by
  have hpiece : ∀ l ∈ [cs], sep ∉ l := fun l hl => by rwa [List.mem_singleton.1 hl]
  have hsplit := List.splitOn_intercalate sep hpiece (List.cons_ne_nil _ _)
  rwa [List.intercalate_singleton] at hsplit

/-- The first piece starts like the text, if that does not start with a separator. -/
theorem exists_splitOn_cons {sep c : Char} (hc : c ≠ sep) (cs : List Char) :
    ∃ piece pieces, (c :: cs).splitOn sep = (c :: piece) :: pieces := by
  obtain ⟨piece, pieces, hpieces⟩ := List.exists_cons_of_ne_nil (List.splitOn_ne_nil sep cs)
  refine ⟨piece, pieces, ?_⟩
  rw [List.splitOn_cons_eq_if_modifyHead, if_neg (by simpa using hc), hpieces]
  rfl

/-- The pieces between separators hold no separator. -/
theorem notMem_of_mem_splitOn {sep : Char} {cs l : List Char} (h : l ∈ cs.splitOn sep) :
    sep ∉ l := by
  induction hn : cs.length using Nat.strongRecOn generalizing cs with
  | _ n ih =>
    subst hn
    cases hcut : cut sep cs with
    | none =>
      have hcs := cut_eq_none.1 hcut
      rw [splitOn_of_notMem hcs, List.mem_singleton] at h
      rwa [h]
    | some parts =>
      obtain ⟨a, b⟩ := parts
      obtain ⟨rfl, ha⟩ := cut_eq_some.1 hcut
      rw [List.splitOn_append_cons_self_of_not_mem ha] at h
      rcases List.mem_cons.1 h with rfl | h
      · exact ha
      · refine ih b.length ?_ h rfl
        rw [List.length_append, List.length_cons]
        omega

/-- A character of a text is a separator or stands in a piece. -/
theorem mem_or_mem_splitOnP {p : Char → Bool} {cs : List Char} {c : Char} (h : c ∈ cs) :
    p c = true ∨ ∃ piece ∈ cs.splitOnP p, c ∈ piece := by
  induction cs with
  | nil => nomatch h
  | cons d cs ih =>
    rw [List.splitOnP_cons_eq_if_modifyHead]
    obtain ⟨piece, pieces, hpieces⟩ := List.exists_cons_of_ne_nil (List.splitOnP_ne_nil p cs)
    rw [hpieces] at ih ⊢
    rcases List.mem_cons.1 h with rfl | hc
    · cases hd : p c with
      | true => exact Or.inl rfl
      | false => exact Or.inr ⟨c :: piece, by simp, List.mem_cons_self ..⟩
    · rcases ih hc with hsep | ⟨piece', hpiece, hc⟩
      · exact Or.inl hsep
      · right
        split
        next => exact ⟨piece', List.mem_cons_of_mem _ hpiece, hc⟩
        next =>
          rcases List.mem_cons.1 hpiece with rfl | hpiece
          · exact ⟨d :: piece', List.mem_cons_self .., List.mem_cons_of_mem _ hc⟩
          · exact ⟨piece', List.mem_cons_of_mem _ hpiece, hc⟩

/-! ### Runs -/

/-- A text starts with a run of characters inside a class, or of characters outside it, that goes as
far as it can. -/
theorem exists_run (p : Char → Bool) (inside : Bool) (cs : List Char) : ∃ a b, cs = a ++ b ∧
    (∀ c ∈ a, p c = inside) ∧ ∀ c ∈ b.head?, p c = !inside := by
  refine ⟨cs.takeWhile fun c => p c == inside, cs.dropWhile fun c => p c == inside,
    List.takeWhile_append_dropWhile.symm, fun c hc => ?_, fun c hc => ?_⟩
  · exact beq_iff_eq.1 (List.mem_takeWhile_imp (p := fun c => p c == inside) hc)
  · have hstop := List.head?_dropWhile_not (fun c => p c == inside) cs
    rw [Option.mem_def.1 hc] at hstop
    exact Bool.eq_not_of_ne (beq_eq_false_iff_ne.1 hstop)

/-- The run that a text starts with is determined by the text. -/
theorem run_unique {p : Char → Bool} {inside : Bool} {a a' b b' : List Char}
    (ha : ∀ c ∈ a, p c = inside) (hb : ∀ c ∈ b.head?, p c = !inside)
    (ha' : ∀ c ∈ a', p c = inside) (hb' : ∀ c ∈ b'.head?, p c = !inside)
    (h : a ++ b = a' ++ b') : a = a' ∧ b = b' := by
  have htake : ∀ {ds es : List Char}, (∀ c ∈ ds, p c = inside) →
      (∀ c ∈ es.head?, p c = !inside) → (ds ++ es).takeWhile (fun c => p c == inside) = ds := by
    intro ds es hds hes
    have hstop : es.takeWhile (fun c => p c == inside) = [] := by
      cases es with
      | nil => rfl
      | cons e es => simp [hes e rfl]
    rw [List.takeWhile_append_of_pos fun c hc => beq_iff_eq.2 (hds c hc), hstop, List.append_nil]
  have heq : a = a' := by rw [← htake ha hb, h, htake ha' hb']
  subst heq
  exact ⟨rfl, List.append_cancel_left h⟩

end Requisite.Text
