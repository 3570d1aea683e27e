import Mathlib.Data.List.TakeWhile
import Requisite.Proofs.Text.Classes
import Requisite.Proofs.Text.Pieces
import Requisite.Requirement.Options

/-!
# Texts with and without options

An option stands after a blank and ends before the next one.  Taking the options out of a text
therefore works piece by piece where the pieces are parted by blanks, leaves no option behind, and
leaves a text alone in which no option stands.

* `Options.Free` — a text without options;
* **`Options.split_append`** — the options of a text are those of its parts;
* **`Options.free_split`** — what remains of a text has no options;
* **`Options.Free.append_cons`** — texts without options that are joined by a sign.
-/

namespace Requisite

namespace Text

theorem disjoint_wordRanges_blankRanges :
    ∀ w ∈ wordRanges, ∀ b ∈ blankRanges, w.2 < b.1 ∨ b.2 < w.1 := by
  decide +kernel

theorem isBlank_of_isWordChar {c : Char} (h : isWordChar c = true) : isBlank c = false := by
  rw [isWordChar, Bool.or_eq_true, List.any_eq_true] at h
  rcases h with h | ⟨w, hw, hc⟩
  · exact isBlank_of_isAlphanum h
  · rw [isBlank, List.any_eq_false]
    intro b hb hblank
    have hdisjoint := disjoint_wordRanges_blankRanges w hw b hb
    simp only [Bool.and_eq_true, decide_eq_true_eq] at hc hblank
    omega

end Text

namespace Options

open Text

/-- A blank comes first, if anything does. -/
def Parted (cs : List Char) : Prop :=
  ∀ c ∈ cs.head?, isBlank c = true

/-- A text without options: none follows a blank. -/
def Free : List Char → Prop
  | [] => True
  | c :: cs => (isBlank c = true → option? cs = none) ∧ Free cs

theorem isBlank_of_isNameChar {c : Char} (h : isNameChar c = true) : isBlank c = false := by
  rw [isNameChar, Bool.or_eq_true, beq_iff_eq] at h
  rcases h with h | rfl
  · exact isBlank_of_isWordChar h
  · rfl

theorem not_isNameChar_of_mem : ∀ c ∈ ['=', ';', '#', ',', ']', ':'], isNameChar c = false := by
  decide +kernel

theorem isNameChar_hyphen : isNameChar '-' = true := by
  rw [isNameChar, beq_self_eq_true, Bool.or_true]

theorem parted_cons {c : Char} (hc : isBlank c = true) (cs : List Char) : Parted (c :: cs) := by
  intro d hd
  rwa [← Option.mem_some_iff.1 hd]

/-- The text from its first blank. -/
theorem parted_dropWhile (cs : List Char) : Parted (cs.dropWhile fun c => !isBlank c) := by
  intro c hc
  have h := List.head?_dropWhile_not (fun c => !isBlank c) cs
  rw [Option.mem_def.1 hc] at h
  simpa using h

theorem Parted.takeWhile_eq_nil {cs : List Char} (h : Parted cs) :
    cs.takeWhile (fun c => !isBlank c) = [] := by
  cases cs with
  | nil => rfl
  | cons c cs => rw [List.takeWhile_cons_of_neg (by simp [h c rfl])]

theorem parted_of_takeWhile_eq_nil {cs : List Char} (h : cs.takeWhile (fun c => !isBlank c) = []) :
    Parted cs := by
  intro c hc
  obtain ⟨ds, rfl⟩ := List.head?_eq_some_iff.1 hc
  have hkeep := List.takeWhile_eq_nil_iff.1 h (Nat.succ_pos _)
  simpa using hkeep

theorem Parted.of_isPrefix {cs ds : List Char} (h : Parted ds) (hlead : cs <+: ds) :
    Parted cs := by
  intro c hc
  obtain ⟨rest, rfl⟩ := hlead
  obtain ⟨tail, rfl⟩ := List.head?_eq_some_iff.1 hc
  exact h c rfl

theorem Parted.append {cs ds : List Char} (hcs : Parted cs) (hds : Parted ds) :
    Parted (cs ++ ds) := by
  cases cs with
  | nil => exact hds
  | cons c cs => exact hcs

/-! ### One option -/

/-- How an option is written. -/
theorem option?_eq_some {cs name value rest : List Char} :
    option? cs = some ((name, value), rest) ↔
      cs = '-' :: '-' :: (name ++ '=' :: (value ++ rest)) ∧ name ≠ [] ∧
        (∀ c ∈ name, isNameChar c = true) ∧ Blankless value ∧ Parted rest := by
  constructor
  · intro h
    unfold option? at h
    split at h
    next => nomatch h
    next ds hds =>
      split at h
      next tail htail =>
        dsimp only at h
        split at h
        next => nomatch h
        next hname =>
          cases h
          refine ⟨?_, fun hnil => hname (by rw [hnil]; rfl), ?_, ?_, parted_dropWhile tail⟩
          · rw [after?_eq_some.1 hds, List.takeWhile_append_dropWhile, ← htail,
              List.takeWhile_append_dropWhile]
            rfl
          · exact fun c hc => List.mem_takeWhile_imp hc
          · exact fun c hc => by simpa using List.mem_takeWhile_imp hc
      next => nomatch h
  · rintro ⟨rfl, hne, hname, hvalue, hrest⟩
    have hstop : isNameChar '=' = false := not_isNameChar_of_mem '=' (List.mem_cons_self ..)
    have hvalue' : ∀ c ∈ value, (!isBlank c) = true := fun c hc => by rw [hvalue c hc]; rfl
    have hdrop : rest.dropWhile (fun c => !isBlank c) = rest := by
      have h := List.takeWhile_append_dropWhile (p := fun c => !isBlank c) (l := rest)
      rwa [hrest.takeWhile_eq_nil, List.nil_append] at h
    have hafter : after? "--" ('-' :: '-' :: (name ++ '=' :: (value ++ rest))) =
        some (name ++ '=' :: (value ++ rest)) := after?_eq_some.2 rfl
    unfold option?
    rw [hafter]
    dsimp only
    rw [List.takeWhile_append_of_pos hname, List.dropWhile_append_of_pos hname,
      List.takeWhile_cons_of_neg (Bool.eq_false_iff.1 hstop),
      List.dropWhile_cons_of_neg (Bool.eq_false_iff.1 hstop), List.append_nil]
    split
    next tail htail =>
      cases htail
      rw [if_neg (by simpa using hne), List.takeWhile_append_of_pos hvalue',
        List.dropWhile_append_of_pos hvalue', hrest.takeWhile_eq_nil, hdrop, List.append_nil]
    next hno => exact absurd rfl (hno _)

/-- A text that starts like an option starts with one. -/
theorem option?_ne_none {name : List Char} (hne : name ≠ [])
    (hname : ∀ c ∈ name, isNameChar c = true) (tail : List Char) :
    option? ('-' :: '-' :: (name ++ '=' :: tail)) ≠ none := by
  have hvalue : ∀ c ∈ tail.takeWhile (fun c => !isBlank c), isBlank c = false :=
    fun c hc => by simpa using List.mem_takeWhile_imp hc
  have hsome := option?_eq_some.2 ⟨rfl, hne, hname, hvalue, parted_dropWhile tail⟩
  rw [List.takeWhile_append_dropWhile] at hsome
  rw [hsome]
  exact Option.some_ne_none _

theorem option?_eq_none_of_head {cs : List Char} (h : cs.head? ≠ some '-') : option? cs = none := by
  rw [Option.eq_none_iff_forall_ne_some]
  rintro ⟨⟨name, value⟩, rest⟩ hsome
  obtain ⟨rfl, -⟩ := option?_eq_some.1 hsome
  exact h rfl

/-- What is no option does not become one by what follows it, unless its last word goes on. -/
theorem option?_append_eq_none {cs ds : List Char} (h : option? cs = none)
    (hds : ∀ c ∈ ds.head?, isNameChar c = false ∧ c ≠ '=') : option? (cs ++ ds) = none := by
  rw [Option.eq_none_iff_forall_ne_some]
  rintro ⟨⟨name, value⟩, rest⟩ hsome
  obtain ⟨heq, hne, hname, -, -⟩ := option?_eq_some.1 hsome
  have hlead : cs ++ ds = ('-' :: '-' :: (name ++ ['='])) ++ (value ++ rest) := by
    rw [heq]
    simp
  have hsign : ∀ c ∈ '-' :: '-' :: (name ++ ['=']), isNameChar c = true ∨ c = '=' := by
    intro c hc
    simp only [List.mem_cons, List.mem_append, List.not_mem_nil, or_false] at hc
    rcases hc with rfl | rfl | hc | rfl
    · exact Or.inl isNameChar_hyphen
    · exact Or.inl isNameChar_hyphen
    · exact Or.inl (hname c hc)
    · exact Or.inr rfl
  have hno : ∀ tail, cs ≠ '-' :: '-' :: (name ++ '=' :: tail) := by
    rintro tail rfl
    exact option?_ne_none hne hname _ h
  rcases List.append_eq_append_iff.1 hlead with ⟨a, ha, hds'⟩ | ⟨a, ha, -⟩
  · cases a with
    | nil => exact hno [] (by simpa using ha.symm)
    | cons c a =>
      obtain ⟨hc, hc'⟩ := hds c (by rw [hds']; rfl)
      rcases hsign c (by rw [ha]; simp) with h' | h'
      · rw [hc] at h'
        nomatch h'
      · exact hc' h'
  · exact hno a (by simpa using ha)

/-- What is an option remains one, whatever follows. -/
theorem option?_of_append {cs : List Char} (ds : List Char) (h : option? (cs ++ ds) = none) :
    option? cs = none := by
  rw [Option.eq_none_iff_forall_ne_some]
  rintro ⟨⟨name, value⟩, rest⟩ hsome
  obtain ⟨rfl, hne, hname, -, -⟩ := option?_eq_some.1 hsome
  refine option?_ne_none hne hname (value ++ rest ++ ds) ?_
  rw [← h]
  simp

/-- An option does not reach beyond a blank. -/
theorem option?_append {cs ds : List Char} (h : Parted ds) :
    option? (cs ++ ds) = (option? cs).map fun (o, rest) => (o, rest ++ ds) := by
  cases hcs : option? cs with
  | none =>
    refine option?_append_eq_none hcs fun c hc => ?_
    have hblank := h c hc
    refine ⟨?_, ?_⟩
    · cases hname : isNameChar c with
      | false => rfl
      | true => rw [isBlank_of_isNameChar hname] at hblank; nomatch hblank
    · rintro rfl
      nomatch hblank
  | some found =>
    obtain ⟨⟨name, value⟩, rest⟩ := found
    obtain ⟨rfl, hne, hname, hvalue, hrest⟩ := option?_eq_some.1 hcs
    exact option?_eq_some.2 ⟨by simp, hne, hname, hvalue, hrest.append h⟩

/-! ### The options of a text -/

theorem split_of_option {c : Char} {cs rest : List Char} {o : List Char × List Char}
    (hc : isBlank c = true) (h : option? cs = some (o, rest)) :
    split (c :: cs) = (o :: (split rest).1, (split rest).2) := by
  rw [split, if_pos hc]
  split
  next o' rest' h' =>
    cases h.symm.trans h'
    rfl
  next h' => cases h.symm.trans h'

theorem split_of_char {c : Char} {cs : List Char} (h : isBlank c = true → option? cs = none) :
    split (c :: cs) = ((split cs).1, c :: (split cs).2) := by
  rw [split]
  split
  next hc =>
    split
    next h' => cases (h hc).symm.trans h'
    next => rfl
  next => rfl

/-- Along the characters of a text, an option being taken as a whole. -/
@[elab_as_elim]
theorem split_induction {motive : List Char → Prop} (cs : List Char) (nil : motive [])
    (option : ∀ c cs o rest, isBlank c = true → option? cs = some (o, rest) → motive rest →
      motive (c :: cs))
    (char : ∀ c cs, (isBlank c = true → option? cs = none) → motive cs → motive (c :: cs)) :
    motive cs := by
  induction cs using split.induct with
  | case1 => exact nil
  | case2 c cs hc o rest hoption _ _ _ ih => exact option c cs o rest hc hoption ih
  | case3 c cs hc hoption _ _ _ ih => exact char c cs (fun _ => hoption) ih
  | case4 c cs hc _ _ _ ih => exact char c cs (fun hblank => absurd hblank hc) ih

/-- The options of a text are those of its parts, if a blank parts them. -/
theorem split_append (cs : List Char) {ds : List Char} (h : Parted ds) :
    split (cs ++ ds) = ((split cs).1 ++ (split ds).1, (split cs).2 ++ (split ds).2) := by
  induction cs using split_induction with
  | nil => rw [List.nil_append, split, List.nil_append, List.nil_append]
  | option c cs o rest hc hoption ih =>
    have hlong : option? (cs ++ ds) = some (o, rest ++ ds) := by rw [option?_append h, hoption]; rfl
    rw [List.cons_append, split_of_option hc hlong, split_of_option hc hoption, ih]
    rfl
  | char c cs hc ih =>
    have hlong : isBlank c = true → option? (cs ++ ds) = none := by
      intro hblank
      rw [option?_append h, hc hblank]
      rfl
    rw [List.cons_append, split_of_char hlong, split_of_char hc, ih]
    rfl

theorem split_of_free {cs : List Char} (h : Free cs) : split cs = ([], cs) := by
  induction cs with
  | nil => rw [split]
  | cons c cs ih => rw [split_of_char h.1, ih h.2]

/-- A text from which no option is taken is left as it is. -/
theorem split_of_fst_eq_nil {cs : List Char} (h : (split cs).1 = []) : split cs = ([], cs) := by
  induction cs using split_induction with
  | nil => rw [split]
  | option c cs o rest hc hoption _ =>
    rw [split_of_option hc hoption] at h
    cases h
  | char c cs hc ih =>
    rw [split_of_char hc] at h ⊢
    rw [ih h]

/-- Taking the options out does not change the first word of a text. -/
theorem takeWhile_split (cs : List Char) :
    (split cs).2.takeWhile (fun c => !isBlank c) = cs.takeWhile fun c => !isBlank c := by
  induction cs using split_induction with
  | nil => rw [split]
  | option c cs o rest hc hoption ih =>
    obtain ⟨-, -, -, -, hrest⟩ := option?_eq_some.1 hoption
    rw [split_of_option hc hoption, ih, hrest.takeWhile_eq_nil,
      List.takeWhile_cons_of_neg (by simp [hc])]
  | char c cs hc ih => rw [split_of_char hc, List.takeWhile_cons, List.takeWhile_cons, ih]

theorem parted_split {cs : List Char} (h : Parted cs) : Parted (split cs).2 :=
  parted_of_takeWhile_eq_nil ((takeWhile_split cs).trans h.takeWhile_eq_nil)

/-- Whether a text starts with an option depends on its first word alone. -/
theorem option?_eq_none_of_takeWhile {cs ds : List Char}
    (h : ds.takeWhile (fun c => !isBlank c) = cs.takeWhile fun c => !isBlank c)
    (hcs : option? cs = none) : option? ds = none := by
  have hword : option? (cs.takeWhile fun c => !isBlank c) = none := by
    refine option?_of_append (cs.dropWhile fun c => !isBlank c) ?_
    rwa [List.takeWhile_append_dropWhile]
  rw [← List.takeWhile_append_dropWhile (p := fun c => !isBlank c) (l := ds),
    option?_append (parted_dropWhile ds), h, hword]
  rfl

/-- What remains of a text has no options: an option that is taken out leaves a blank behind it or
the end of the text. -/
theorem free_split (cs : List Char) : Free (split cs).2 := by
  induction cs using split_induction with
  | nil => rw [split]; trivial
  | option c cs o rest hc hoption ih => rwa [split_of_option hc hoption]
  | char c cs hc ih =>
    rw [split_of_char hc]
    exact ⟨fun hblank => option?_eq_none_of_takeWhile (takeWhile_split cs) (hc hblank), ih⟩

/-- The values of options are words. -/
theorem isBlank_of_mem_split {cs : List Char} {o : List Char × List Char} (h : o ∈ (split cs).1) :
    Blankless o.2 := by
  induction cs using split_induction with
  | nil => rw [split] at h; cases h
  | option c cs o' rest hc hoption ih =>
    rw [split_of_option hc hoption] at h
    rcases List.mem_cons.1 h with rfl | h
    · exact (option?_eq_some.1 hoption).2.2.2.1
    · exact ih h
  | char c cs hc ih => rw [split_of_char hc] at h; exact ih h

/-! ### Texts without options -/

theorem free_nil : Free [] := trivial

/-- A word before a text brings no options. -/
theorem Free.of_word {cs ds : List Char} (hcs : Blankless cs) (hds : Free ds) :
    Free (cs ++ ds) := by
  induction cs with
  | nil => exact hds
  | cons c cs ih =>
    have hc : ¬isBlank c = true := Bool.eq_false_iff.1 (hcs c (List.mem_cons_self ..))
    exact ⟨fun hblank => absurd hblank hc, ih fun d hd => hcs d (List.mem_cons_of_mem c hd)⟩

theorem free_of_word {cs : List Char} (h : Blankless cs) : Free cs := by
  rw [← List.append_nil cs]
  exact free_nil.of_word h

theorem Free.of_append {cs ds : List Char} (h : Free (cs ++ ds)) : Free cs ∧ Free ds := by
  induction cs with
  | nil => exact ⟨trivial, h⟩
  | cons c cs ih =>
    obtain ⟨hc, h⟩ := h
    obtain ⟨hcs, hds⟩ := ih h
    exact ⟨⟨fun hblank => option?_of_append ds (hc hblank), hcs⟩, hds⟩

/-- No part of a text without options has any. -/
theorem Free.of_isInfix {cs ds : List Char} (h : cs <:+: ds) (hds : Free ds) : Free cs := by
  obtain ⟨a, b, rfl⟩ := h
  exact hds.of_append.1.of_append.2

/-- A sign that belongs to no option: neither a blank nor a part of an option name, nor `=`. -/
def isSign (c : Char) : Bool :=
  !isBlank c && !isNameChar c && c != '='

theorem isSign_of_mem : ∀ c ∈ [';', '#', ',', ']', ':'], isSign c = true := by
  intro c hc
  have hplain : ∀ c ∈ [';', '#', ',', ']', ':'], (!isBlank c && c != '=') = true := by decide
  have hrest := hplain c hc
  rw [Bool.and_eq_true] at hrest
  rw [isSign, not_isNameChar_of_mem c (List.mem_cons_of_mem _ hc), hrest.1, hrest.2]
  rfl

/-- Texts without options have none when they are joined by a sign. -/
theorem Free.append_cons {cs ds : List Char} {c : Char} (hcs : Free cs) (hc : isSign c = true)
    (hds : Free ds) : Free (cs ++ c :: ds) := by
  simp only [isSign, Bool.and_eq_true, Bool.not_eq_true', bne_iff_ne] at hc
  obtain ⟨⟨hblank, hname⟩, hequal⟩ := hc
  induction cs with
  | nil =>
    refine ⟨fun h => ?_, hds⟩
    rw [hblank] at h
    nomatch h
  | cons d cs ih =>
    refine ⟨fun hd => option?_append_eq_none (hcs.1 hd) fun e he => ?_, ih hcs.2⟩
    obtain rfl := Option.mem_some_iff.1 he
    exact ⟨hname, hequal⟩

/-- Texts without options have none when the second one starts with a blank. -/
theorem Free.append_parted {cs ds : List Char} (hcs : Free cs) (hds : Free ds) (h : Parted ds) :
    Free (cs ++ ds) := by
  have hsplit := split_append cs h
  rw [split_of_free hcs, split_of_free hds] at hsplit
  have hfree := free_split (cs ++ ds)
  rwa [hsplit] at hfree

theorem free_intercalate {sep : Char} (hsep : isSign sep = true) {ls : List (List Char)}
    (h : ∀ l ∈ ls, Free l) : Free ([sep].intercalate ls) := by
  induction ls with
  | nil => trivial
  | cons l ls ih =>
    obtain ⟨hl, h⟩ := List.forall_mem_cons.1 h
    cases ls with
    | nil => rwa [List.intercalate_singleton]
    | cons l' ls =>
      rw [List.intercalate_cons_cons, List.append_assoc, List.singleton_append]
      exact hl.append_cons hsep (ih h)

/-- A text without two hyphens side by side starts with no option. -/
theorem option?_eq_none_of_hyphens {cs : List Char} (h : ¬['-', '-'] <:+: cs) :
    option? cs = none := by
  rw [Option.eq_none_iff_forall_ne_some]
  rintro ⟨⟨name, value⟩, rest⟩ hsome
  obtain ⟨rfl, -⟩ := option?_eq_some.1 hsome
  exact h ⟨[], _, rfl⟩

theorem free_of_hyphens {cs : List Char} (h : ¬['-', '-'] <:+: cs) : Free cs := by
  induction cs with
  | nil => trivial
  | cons c cs ih =>
    have hcs : ¬['-', '-'] <:+: cs := fun hin => h (hin.trans (List.suffix_cons c cs).isInfix)
    exact ⟨fun _ => option?_eq_none_of_hyphens hcs, ih hcs⟩

end Options

end Requisite
