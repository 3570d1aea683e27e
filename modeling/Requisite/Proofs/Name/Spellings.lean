import Requisite.Proofs.Name.Extras

/-!
# The spellings of one name

A text is pieces with runs of separators between them.  The canonical spelling forgets what the runs
are made of and which letters are capitals, and it forgets nothing else.

* `Name.Pieced` — a text that is put together from pieces and runs of separators;
* **`Name.exists_pieced`**, **`Name.Pieced.unique`** — every text is put together so, and in one way;
* **`Name.Pieced.collapse_eq`** — a text is collapsed to its pieces in small letters, with single
  hyphens between them;
* **`Name.canonical_eq_iff`** — two texts have the same canonical spelling exactly if they have the
  same pieces in small letters;
* **`Name.canonical_normalForm`** — the canonical spelling is a normal form of package names.
-/

namespace Requisite.Name

open Text

/-! ### Pieces -/

/-- A text that is put together from pieces without separators and runs of separators between them.
The first and the last piece may be empty, and then the text starts or ends with a run. -/
inductive Pieced : List Char → List (List Char) → Prop
  /-- A text without separators is one piece. -/
  | one {p : List Char} (hp : ∀ c ∈ p, isSeparator c = false) : Pieced p [p]
  /-- One piece more stands before a run of separators that goes as far as it can. -/
  | more {p run cs : List Char} {ps : List (List Char)} (hp : ∀ c ∈ p, isSeparator c = false)
      (hne : run ≠ []) (hrun : ∀ c ∈ run, isSeparator c = true)
      (hend : ∀ c ∈ cs.head?, isSeparator c = false) (h : Pieced cs ps) :
      Pieced (p ++ (run ++ cs)) (p :: ps)

theorem Pieced.ne_nil {cs : List Char} {ps : List (List Char)} (h : Pieced cs ps) : ps ≠ [] := by
  cases h with
  | one hp => exact List.cons_ne_nil _ _
  | more hp hne hrun hend h => exact List.cons_ne_nil _ _

theorem Pieced.isSeparator_eq_false {cs : List Char} {ps : List (List Char)} (h : Pieced cs ps) :
    ∀ p ∈ ps, ∀ c ∈ p, isSeparator c = false := by
  induction h with
  | one hp => exact List.forall_mem_singleton.2 hp
  | more hp hne hrun hend h ih => exact List.forall_mem_cons.2 ⟨hp, ih⟩

/-- The pieces of a text stand in it. -/
theorem Pieced.isInfix {cs : List Char} {ps : List (List Char)} (h : Pieced cs ps) :
    ∀ p ∈ ps, p <:+: cs := by
  induction h with
  | one hp => exact List.forall_mem_singleton.2 (List.infix_refl _)
  | more hp hne hrun hend h ih =>
    refine List.forall_mem_cons.2 ⟨(List.prefix_append _ _).isInfix, fun q hq => ?_⟩
    rw [← List.append_assoc]
    exact (ih q hq).trans (List.suffix_append _ _).isInfix

/-- A run starts with a separator. -/
theorem isSeparator_of_mem_head?_run {run : List Char} (hne : run ≠ [])
    (hrun : ∀ c ∈ run, isSeparator c = true) (cs : List Char) :
    ∀ c ∈ (run ++ cs).head?, isSeparator c = true := by
  obtain ⟨d, run, rfl⟩ := List.exists_cons_of_ne_nil hne
  intro c hc
  obtain rfl := Option.mem_some_iff.1 hc
  exact hrun d (List.mem_cons_self ..)

/-- Every text is put together from pieces. -/
theorem exists_pieced (cs : List Char) : ∃ ps, Pieced cs ps := by
  induction hn : cs.length using Nat.strongRecOn generalizing cs with
  | _ n ih =>
    subst hn
    obtain ⟨p, rest, rfl, hp, hrest⟩ := exists_run isSeparator false cs
    obtain ⟨run, cs, rfl, hrun, hend⟩ := exists_run isSeparator true rest
    cases run with
    | nil =>
      -- what stands behind the piece is no separator and not none, so nothing does
      cases cs with
      | nil =>
        rw [List.append_nil, List.append_nil]
        exact ⟨[p], .one hp⟩
      | cons c cs =>
        have hsep := hrest c rfl
        rw [hend c rfl] at hsep
        nomatch hsep
    | cons d run =>
      have hless : cs.length < (p ++ (d :: run ++ cs)).length := by
        simp only [List.length_append, List.length_cons]
        omega
      obtain ⟨ps, hps⟩ := ih cs.length hless cs rfl
      exact ⟨p :: ps, .more hp (List.cons_ne_nil d run) hrun hend hps⟩

/-- A text is put together from pieces in one way at most. -/
theorem Pieced.unique {cs : List Char} {ps qs : List (List Char)} (h : Pieced cs ps)
    (h' : Pieced cs qs) : ps = qs := by
  -- a text with a run is not one piece
  have hlone : ∀ {p run ds : List Char}, run ≠ [] → (∀ c ∈ run, isSeparator c = true) →
      ¬ ∀ c ∈ p ++ (run ++ ds), isSeparator c = false := by
    intro p run ds hne hrun hall
    obtain ⟨c, hc⟩ := List.exists_mem_of_ne_nil run hne
    have hsep := hall c (List.mem_append_right p (List.mem_append_left ds hc))
    rw [hrun c hc] at hsep
    nomatch hsep
  induction h generalizing qs with
  | one hp =>
    cases h' with
    | one hp' => rfl
    | more hp' hne hrun hend h' => exact absurd hp (hlone hne hrun)
  | @more p run cs ps hp hne hrun hend h ih =>
    generalize hds : p ++ (run ++ cs) = ds at h'
    cases h' with
    | one hp' =>
      rw [← hds] at hp'
      exact absurd hp' (hlone hne hrun)
    | @more p' run' cs' ps' hp' hne' hrun' hend' h' =>
      obtain ⟨rfl, hrest⟩ := run_unique hp (isSeparator_of_mem_head?_run hne hrun cs) hp'
        (isSeparator_of_mem_head?_run hne' hrun' cs') hds
      obtain ⟨rfl, rfl⟩ := run_unique hrun hend hrun' hend' hrest
      rw [ih h']

/-! ### Collapsing pieces -/

/-- A piece is lowered. -/
theorem collapse_piece_append {p : List Char} (hp : ∀ c ∈ p, isSeparator c = false)
    (cs : List Char) : collapse (p ++ cs) = lower p ++ collapse cs := by
  induction p with
  | nil => rfl
  | cons c p ih =>
    obtain ⟨hc, hp⟩ := List.forall_mem_cons.1 hp
    have hcons : ∀ ds, collapse (c :: ds) = c.toLower :: collapse ds := by
      intro ds
      cases ds with
      | nil => simp only [collapse, hc, Bool.false_eq_true, if_false]
      | cons d ds => simp only [collapse, hc, Bool.not_false, if_true]
    rw [List.cons_append, hcons, ih hp]
    rfl

/-- A run of separators becomes one hyphen. -/
theorem collapse_run_append {run cs : List Char} (hne : run ≠ [])
    (hrun : ∀ c ∈ run, isSeparator c = true) (hend : ∀ c ∈ cs.head?, isSeparator c = false) :
    collapse (run ++ cs) = '-' :: collapse cs := by
  induction run with
  | nil => exact absurd rfl hne
  | cons c run ih =>
    obtain ⟨hc, hrun⟩ := List.forall_mem_cons.1 hrun
    cases run with
    | nil =>
      cases cs with
      | nil => simp only [List.append_nil, collapse, hc, if_true]
      | cons d cs => simp [collapse, hc, hend d rfl]
    | cons d run =>
      have hd := hrun d (List.mem_cons_self ..)
      rw [← ih (List.cons_ne_nil d run) hrun]
      simp [collapse, hc, hd]

/-- A text is collapsed to its pieces in small letters, with single hyphens between them. -/
theorem Pieced.collapse_eq {cs : List Char} {ps : List (List Char)} (h : Pieced cs ps) :
    collapse cs = ['-'].intercalate (ps.map lower) := by
  induction h with
  | @one p hp =>
    have hlower := collapse_piece_append hp []
    rw [List.append_nil] at hlower
    rw [hlower, collapse, List.append_nil, List.map_singleton, List.intercalate_singleton]
  | @more p run cs ps hp hne hrun hend h ih =>
    obtain ⟨q, ps, rfl⟩ := List.exists_cons_of_ne_nil h.ne_nil
    rw [collapse_piece_append hp, collapse_run_append hne hrun hend, ih]
    simp only [List.map_cons]
    rw [List.intercalate_cons_cons, List.append_assoc]
    rfl

/-- No hyphen stands in a lowered piece, so that the pieces are what the hyphens set apart. -/
theorem Pieced.splitOn_collapse {cs : List Char} {ps : List (List Char)} (h : Pieced cs ps) :
    (collapse cs).splitOn '-' = ps.map lower := by
  have hplain : ∀ q ∈ ps.map lower, '-' ∉ q := by
    refine List.forall_mem_map.2 fun p hp hmem => ?_
    obtain ⟨c, hc, hhyphen⟩ := List.mem_map.1 hmem
    have hsep := isSeparator_toLower c
    rw [h.isSeparator_eq_false p hp c hc, hhyphen] at hsep
    nomatch hsep
  rw [h.collapse_eq]
  exact List.splitOn_intercalate '-' hplain fun hnil => h.ne_nil (List.map_eq_nil_iff.1 hnil)

/-- Two texts have the same canonical spelling exactly if they have the same pieces in small
letters. -/
theorem canonical_eq_iff {name other : String} {ps qs : List (List Char)}
    (h : Pieced (trim name.toList) ps) (h' : Pieced (trim other.toList) qs) :
    canonical name = canonical other ↔ ps.map lower = qs.map lower := by
  rw [canonical, canonical, String.ofList_inj]
  constructor
  · intro heq
    rw [← h.splitOn_collapse, heq, h'.splitOn_collapse]
  · intro heq
    rw [h.collapse_eq, h'.collapse_eq, heq]

/-! ### Package names -/

/-- A text that neither starts nor ends with a separator has no empty piece. -/
theorem Pieced.ne_nil_of_mem {cs : List Char} {ps : List (List Char)} (h : Pieced cs ps)
    (hne : cs ≠ []) (hfirst : ∀ c ∈ cs.head?, isSeparator c = false)
    (hlast : ∀ c ∈ cs.getLast?, isSeparator c = false) : ∀ p ∈ ps, p ≠ [] := by
  induction h with
  | one hp => exact List.forall_mem_singleton.2 hne
  | @more p run cs ps hp hnerun hrun hend h ih =>
    have hp : p ≠ [] := by
      rintro rfl
      obtain ⟨d, run, rfl⟩ := List.exists_cons_of_ne_nil hnerun
      have hsep := hfirst d rfl
      rw [hrun d (List.mem_cons_self ..)] at hsep
      nomatch hsep
    have hcs : cs ≠ [] := by
      rintro rfl
      have hd := List.getLast?_eq_some_getLast hnerun
      rw [List.append_nil, List.getLast?_append_of_ne_nil _ hnerun, hd] at hlast
      have hsep := hlast _ rfl
      rw [hrun _ (List.getLast_mem hnerun)] at hsep
      nomatch hsep
    rw [← List.append_assoc, List.getLast?_append_of_ne_nil _ hcs] at hlast
    exact List.forall_mem_cons.2 ⟨hp, ih hcs hend hlast⟩

theorem isSeparator_of_isAlphanum {c : Char} (h : c.isAlphanum = true) : isSeparator c = false := by
  rw [Bool.eq_false_iff]
  intro hsep
  simp only [isSeparator, Bool.or_eq_true, beq_iff_eq] at hsep
  rcases hsep with (rfl | rfl) | rfl <;> exact absurd h (by decide)

namespace IsPackageName

variable {cs : List Char} {ps : List (List Char)} (hname : IsPackageName cs)

include hname

theorem trim_eq : trim cs = cs := by
  obtain ⟨c, cs, rfl⟩ := List.exists_cons_of_ne_nil hname.ne_nil
  exact trim_of_ended (isBlank_of_isAlphanum (hname.first c rfl)) fun d hd =>
    isBlank_of_isAlphanum (hname.last d hd)

/-- The pieces of a package name are words of letters and digits. -/
theorem isAlphanum_of_pieced (h : Pieced cs ps) :
    ∀ p ∈ ps, p ≠ [] ∧ ∀ c ∈ p, c.isAlphanum = true := by
  intro p hp
  refine ⟨h.ne_nil_of_mem hname.ne_nil (fun c hc => isSeparator_of_isAlphanum (hname.first c hc))
    (fun c hc => isSeparator_of_isAlphanum (hname.last c hc)) p hp, fun c hc => ?_⟩
  have hchar := isNameChar_iff.2 (hname.chars c ((h.isInfix p hp).subset hc))
  rw [isNameChar, h.isSeparator_eq_false p hp c hc, Bool.or_false] at hchar
  exact hchar

end IsPackageName

/-- A piece of a canonical spelling: a word of small letters and digits of ASCII. -/
def IsSmallWord (p : List Char) : Prop :=
  p ≠ [] ∧ ∀ c ∈ p, c.isLower = true ∨ c.isDigit = true

/-- The canonical spelling is a normal form of package names.  It is the canonical spelling of itself.
A package name has one sequence of pieces, and its canonical spelling is the pieces in small letters,
none of them empty, with single hyphens between them.  So two package names have the same canonical
spelling if and only if they have the same pieces in small letters. -/
theorem canonical_normalForm :
    (∀ name, canonical (canonical name) = canonical name) ∧
    (∀ name : String, isValid name.toList = true → ∃ ps, (∀ qs, Pieced name.toList qs ↔ qs = ps) ∧
      ps ≠ [] ∧ (∀ p ∈ ps.map lower, IsSmallWord p) ∧
      canonical name = String.ofList (['-'].intercalate (ps.map lower))) ∧
    ∀ (name other : String) (ps qs : List (List Char)), isValid name.toList = true →
      isValid other.toList = true → Pieced name.toList ps → Pieced other.toList qs →
      (canonical name = canonical other ↔ ps.map lower = qs.map lower) := by
  refine ⟨canonical_canonical, fun name hname => ?_, fun name other ps qs hname hother h h' => ?_⟩
  · have hname := isValid_iff.1 hname
    obtain ⟨ps, h⟩ := exists_pieced name.toList
    refine ⟨ps, fun qs => ⟨fun h' => h'.unique h, fun hqs => hqs ▸ h⟩, h.ne_nil, ?_, ?_⟩
    · refine List.forall_mem_map.2 fun p hp => ?_
      obtain ⟨hne, hword⟩ := hname.isAlphanum_of_pieced h p hp
      exact ⟨fun hnil => hne (List.map_eq_nil_iff.1 hnil),
        List.forall_mem_map.2 fun c hc => isLower_or_isDigit_toLower (hword c hc)⟩
    · rw [canonical, hname.trim_eq, h.collapse_eq]
  · refine canonical_eq_iff ?_ ?_
    · rwa [(isValid_iff.1 hname).trim_eq]
    · rwa [(isValid_iff.1 hother).trim_eq]

/-- One name in two spellings, and another one that has the same letters. -/
theorem canonical_normalForm_zope :
    canonical "Zope._-Interface" = canonical "zope-interface" ∧
    canonical "zope-interface" ≠ canonical "zopeinterface" ∧
    ∃ ps, Pieced "Zope._-Interface".toList ps ∧ (∀ p ∈ ps.map lower, IsSmallWord p) ∧
      canonical "Zope._-Interface" = String.ofList (['-'].intercalate (ps.map lower)) := by
  have hmixed : Pieced "Zope._-Interface".toList ["Zope".toList, "Interface".toList] :=
    @Pieced.more "Zope".toList "._-".toList "Interface".toList _ (by decide) (by decide) (by decide)
      (by decide) (.one (by decide))
  have hplain : Pieced "zope-interface".toList ["zope".toList, "interface".toList] :=
    @Pieced.more "zope".toList "-".toList "interface".toList _ (by decide) (by decide) (by decide)
      (by decide) (.one (by decide))
  have hlone : Pieced "zopeinterface".toList ["zopeinterface".toList] := .one (by decide)
  obtain ⟨-, hform, hsame⟩ := canonical_normalForm
  refine ⟨(hsame _ _ _ _ (by decide) (by decide) hmixed hplain).2 (by decide), fun heq => ?_, ?_⟩
  · exact absurd ((hsame _ _ _ _ (by decide) (by decide) hplain hlone).1 heq) (by decide)
  · obtain ⟨ps, hps, -, hwords, htext⟩ := hform "Zope._-Interface" (by decide)
    exact ⟨ps, (hps ps).2 rfl, hwords, htext⟩

end Requisite.Name
