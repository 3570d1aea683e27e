import Requisite.Proofs.Requirement.Writing
import Requisite.Requirement.Table

/-!
# Sound dependencies

A dependency is sound when its name is a package name, its extras are plain, and a choice has options,
sound ones that share its name.  What is read from a text is sound.  A table, and a list of values,
take their name and their extras as they are given, and so they denote a sound dependency only if
these are in order.

* `Dependency.Sound` — what is expected of a dependency;
* **`Requirement.name_of_read`** — a text that starts with a name denotes a requirement of that name;
* `Toml.Fits` — a name and a value that are in order;
* **`Dependency.sound_iff_fits`** — a configured dependency is sound if and only if its name and its
  value are in order.
-/

namespace Requisite

open Text Options

/-! ### Soundness -/

/-- The text of an extra that can stand in brackets. -/
def Name.IsPlainExtra (extra : String) : Prop :=
  extra.toList ≠ [] ∧ Without ['[', ']', ','] extra.toList

/-- A declaration of a package name and of plain extras. -/
structure Declared.Sound {α : Type} (d : Declared α) : Prop where
  name : Name.isValid d.name.toList = true
  extras : ∀ e ∈ d.extras, Name.IsPlainExtra e

/-- What a declared choice lives up to: there are options, and each is sound and has the name of the
choice. -/
def Choice.Sound (name : String) : Choice → Prop
  | .one _ => True
  | .oneOf options => options ≠ [] ∧ ∀ r ∈ options, Declared.Sound r ∧ r.name = name

/-- What is expected of a dependency. -/
structure Dependency.Sound (d : Dependency) : Prop where
  declared : Declared.Sound d
  choice : d.subject.Sound d.name

theorem Dependency.sound_toDependency {r : Requirement} :
    Dependency.Sound r.toDependency ↔ Declared.Sound r :=
  ⟨fun h => ⟨h.declared.name, h.declared.extras⟩, fun h => ⟨⟨h.name, h.extras⟩, trivial⟩⟩

/-- What was read from a text is sound. -/
theorem Requirement.sound_of_read {cs : List Char} {r : Requirement}
    (h : Requirement.read cs = .ok r) : Declared.Sound r := by
  rw [← String.toList_ofList (l := cs)] at h
  have hreadable := readable_of_parse h
  refine ⟨hreadable.name, fun e he => ?_⟩
  have hextra := hreadable.extras e he
  exact ⟨hextra.ne_nil, hextra.plain.of_subset (by decide)⟩

/-! ### The name at the start of a text -/

/-- A text starts with a name, alone or before a blank. -/
def Name.Leads (name : String) (cs : List Char) : Prop :=
  ∃ rest, cs = name.toList ++ rest ∧ Parted rest

namespace Name.Leads

variable {name : String} {cs : List Char}

theorem trim (hname : isValid name.toList = true) (h : Leads name cs) : Leads name (trim cs) := by
  obtain ⟨rest, rfl, hrest⟩ := h
  obtain ⟨b, hb, -⟩ := exists_blanks_trimEnd rest
  refine ⟨trimEnd rest, trim_word (blankless_of_isValid hname) (ne_nil_of_isValid hname) rest, ?_⟩
  exact hrest.of_isPrefix ⟨b, hb.symm⟩

/-- Taking the options out leaves the name. -/
theorem split (hname : isValid name.toList = true) (h : Leads name cs) :
    Leads name (split cs).2 := by
  obtain ⟨rest, rfl, hrest⟩ := h
  refine ⟨(Options.split rest).2, ?_, parted_split hrest⟩
  rw [split_append _ hrest, split_of_free (free_of_word (blankless_of_isValid hname))]

/-- What stands before a sign that no name has still starts with the name. -/
theorem before {sep : Char} {a b : List Char} (hsep : sep ∉ name.toList)
    (h : Leads name (a ++ sep :: b)) : Leads name a := by
  obtain ⟨rest, heq, hrest⟩ := h
  obtain ⟨q, rfl, hq⟩ := exists_append_of_notMem hsep heq.symm
  exact ⟨q, rfl, hrest.of_isPrefix ⟨sep :: b, hq.symm⟩⟩

end Name.Leads

/-- A name that goes on with other characters is not a name. -/
theorem Name.eq_nil_of_isValid_append {cs rest : List Char} (h : isValid (cs ++ rest) = true)
    (hrest : ∀ c ∈ rest.head?, isNameChar c = false) : rest = [] := by
  cases rest with
  | nil => rfl
  | cons c rest =>
    have hchar := (of_isValid h).1 c (List.mem_append_right cs (List.mem_cons_self ..))
    rw [hrest c rfl] at hchar
    nomatch hchar

/-- What is read as a name before other characters is the name. -/
theorem Name.eq_of_isValid_trim {name : String} (hname : isValid name.toList = true)
    {rest : List Char} (hrest : ∀ c ∈ rest.head?, isNameChar c = false)
    (h : isValid (trim (name.toList ++ rest)) = true) : trim (name.toList ++ rest) = name.toList := by
  obtain ⟨b, hb, -⟩ := exists_blanks_trimEnd rest
  have htrim := trim_word (blankless_of_isValid hname) (ne_nil_of_isValid hname) rest
  have hstop : ∀ c ∈ (trimEnd rest).head?, isNameChar c = false := by
    intro c hc
    obtain ⟨ds, hds⟩ := List.head?_eq_some_iff.1 hc
    exact hrest c (by rw [hb, hds]; rfl)
  rw [htrim] at h ⊢
  rw [eq_nil_of_isValid_append h hstop, List.append_nil]

/-- The name that is read from a text that starts with a name. -/
theorem name_of_readName {name name' : String} {extras : List String}
    (hname : Name.isValid name.toList = true) {rest : List Char}
    (hrest : ∀ c ∈ rest.head?, Name.isNameChar c = false)
    (h : readName (name.toList ++ rest) = .ok (name', extras)) : name' = name := by
  have htrim := trim_word (Name.blankless_of_isValid hname) (Name.ne_nil_of_isValid hname) rest
  obtain ⟨hname', hbracketed⟩ := readName_eq_ok_iff.1 h
  have hvalid := Name.isValid_iff.2 hname'
  -- What was read is the name and what stands before a bracket, if there is one, without blanks.
  have hread : ∃ q, name'.toList = trim (name.toList ++ q) ∧
      ∀ c ∈ q.head?, Name.isNameChar c = false := by
    generalize htext : trim (name.toList ++ rest) = text at hbracketed
    generalize extras.map String.toList = entries at hbracketed
    generalize name'.toList = head at hbracketed hvalid ⊢
    cases hbracketed with
    | bare => exact ⟨rest, htext.symm, hrest⟩
    | extended _ _ hblanks =>
      rw [htrim] at htext
      obtain ⟨q, hfront, hq⟩ :=
        exists_append_of_notMem (Name.without_of_isValid hname '[' (by decide)) htext
      obtain ⟨b, hb, -⟩ := exists_blanks_trimEnd rest
      refine ⟨q, ?_, fun c hc => hrest c ?_⟩
      · rw [← hfront, trim_append_blanks hblanks,
          trim_of_blankless (Name.blankless_of_isValid hvalid)]
      · obtain ⟨ds, hds⟩ := List.head?_eq_some_iff.1 hc
        rw [hb, hq, hds]
        rfl
  obtain ⟨q, hread, hq⟩ := hread
  rw [hread] at hvalid
  rw [← String.toList_inj, hread, Name.eq_of_isValid_trim hname hq hvalid]

namespace Requirement

theorem leads_headAndMarkers {name : String} (hname : Name.isValid name.toList = true)
    {text : List Char} (h : Name.Leads name text) : Name.Leads name (headAndMarkers text).1 := by
  unfold headAndMarkers
  split
  next head markers hcut =>
    obtain ⟨rfl, -⟩ := cut_eq_some.1 hcut
    exact (h.before (Name.without_of_isValid hname ';' (by decide))).trim hname
  next => exact h.trim hname

theorem name_of_readHead {name : String} (hname : Name.isValid name.toList = true)
    {input head : List Char} {d : Requirement} (hlead : Name.Leads name head)
    (h : readHead input head = .ok d) : d.name = name := by
  unfold readHead at h
  split at h
  next text target hcut =>
    obtain ⟨rfl, -⟩ := cut_eq_some.1 hcut
    obtain ⟨rest, rfl, hrest⟩ := hlead.before (Name.without_of_isValid hname '@' (by decide))
    obtain ⟨name', extras, origin, hashes, hread, -, rfl⟩ := readTarget_eq_ok_iff.1 h
    exact name_of_readName hname hrest.not_isNameChar hread
  next =>
    obtain ⟨rest, rfl, hrest⟩ := hlead
    obtain ⟨nameText, body, name', extras, unwrapped, range, hbody, hread, -, -, -, rfl⟩ :=
      readRegistry_eq_ok_iff.1 h
    show name' = name
    have hparts := takeWhile_name hname hrest.not_isNameChar
    unfold nameAndRest? at hbody
    rw [hparts.1, hparts.2] at hbody
    dsimp only at hbody
    split at hbody
    next tail htail =>
      obtain ⟨⟨bracket, after⟩, hcut, heq⟩ := Option.map_eq_some_iff.1 hbody
      obtain ⟨rfl, -⟩ := Prod.mk.inj heq
      have hopen : ∀ c ∈ (bracket ++ [']']).head?, Name.isNameChar c = false := by
        have hbracket := htail.symm.trans (cut_eq_some.1 hcut).1
        cases bracket with
        | nil => exact absurd (List.cons.inj hbracket).1 (by decide)
        | cons d bracket =>
          intro c hc
          obtain rfl := Option.some.inj hc
          rw [← (List.cons.inj hbracket).1]
          rfl
      rw [List.append_assoc] at hread
      exact name_of_readName hname hopen hread
    next =>
      obtain ⟨rfl, -⟩ := Prod.mk.inj (Option.some.inj hbody)
      refine @name_of_readName name name' extras hname [] nofun ?_
      rwa [List.append_nil]

/-- A text that starts with a name denotes a requirement of that name. -/
theorem name_of_read {name : String} (hname : Name.isValid name.toList = true) {cs : List Char}
    {r : Requirement} (hlead : Name.Leads name cs) (h : Requirement.read cs = .ok r) :
    r.name = name := by
  obtain ⟨hs, d, -, hd, rfl⟩ := Requirement.of_read h
  have hhead := leads_headAndMarkers hname ((hlead.trim hname).split hname)
  exact name_of_readHead (d := d) hname hhead hd

/-- The text of a configuration denotes a sound requirement, of the name that it stands under if that
is a package name. -/
theorem of_ofText {name : String} {text : List Char} {r : Requirement}
    (h : Requirement.ofText name text = .ok r) :
    Declared.Sound r ∧ (Name.isValid name.toList = true → r.name = name) := by
  refine ⟨sound_of_read h, fun hname => ?_⟩
  unfold Requirement.ofText at h
  dsimp only at h
  rw [List.append_assoc] at h
  refine name_of_read hname ⟨_, rfl, ?_⟩ h
  split
  next => exact parted_cons rfl _
  next => split <;> exact parted_cons rfl _

end Requirement

/-! ### Tables -/

namespace Entries

/-- The extras of a table are plain, as far as they are texts. -/
def PlainExtras (t : Entries) : Prop :=
  ∀ items, Toml.lookup "extras" t = some (.array items) →
    ∀ e, Toml.string e ∈ items → Name.IsPlainExtra e

theorem mem_strings? {items : List Toml} {xs : List String} (h : strings? items = some xs)
    {e : String} : e ∈ xs ↔ Toml.string e ∈ items := by
  induction items generalizing xs with
  | nil =>
    obtain rfl := Option.some.inj h
    exact iff_of_false List.not_mem_nil List.not_mem_nil
  | cons item items ih =>
    cases item with
    | string s =>
      obtain ⟨ys, hys, rfl⟩ := Option.map_eq_some_iff.1 h
      simp only [List.mem_cons, ih hys, Toml.string.injEq]
    | _ => nomatch h

theorem plainExtras_iff {name : String} {t : Entries} {xs : List String}
    (h : extras name t = .ok xs) : t.PlainExtras ↔ ∀ e ∈ xs, Name.IsPlainExtra e := by
  unfold extras at h
  unfold PlainExtras
  split at h
  next hnone =>
    obtain rfl := Except.ok.inj h
    rw [hnone]
    exact iff_of_true nofun nofun
  next items hitems =>
    split at h
    next ys hys =>
      obtain rfl := Except.ok.inj h
      rw [hitems]
      constructor
      · exact fun hplain e he => hplain items rfl e ((mem_strings? hys).1 he)
      · rintro hplain _ ⟨⟩ e he
        exact hplain e ((mem_strings? hys).2 he)
    next => nomatch h
  next => nomatch h

/-- A requirement takes its name and its extras from a table as they are given. -/
theorem of_requirement {name : String} {t : Entries} {r : Requirement}
    (h : Entries.requirement name t = .ok r) : r.name = name ∧ extras name t = .ok r.extras := by
  obtain ⟨origin, -, h⟩ := Outcome.of_bind h
  obtain ⟨python, -, h⟩ := Outcome.of_bind h
  obtain ⟨markers, -, h⟩ := Outcome.of_bind h
  obtain ⟨xs, hextras, h⟩ := Outcome.of_bind h
  obtain rfl := Except.ok.inj h
  exact ⟨rfl, hextras⟩

theorem sound_iff {name : String} {t : Entries} {r : Requirement}
    (h : Entries.requirement name t = .ok r) :
    Declared.Sound r ↔ Name.isValid name.toList = true ∧ t.PlainExtras := by
  obtain ⟨hname, hextras⟩ := of_requirement h
  rw [plainExtras_iff hextras, ← hname]
  exact ⟨fun h => ⟨h.name, h.extras⟩, fun h => ⟨h.1, h.2⟩⟩

end Entries

/-! ### Configured dependencies -/

/-- A name and a value that are in order: a text reads its name itself, and a table and a choice take
the name as it is given. -/
def Toml.Fits (name : String) : Toml → Prop
  | .string _ => True
  | .table t => Name.isValid name.toList = true ∧ Entries.PlainExtras t
  | .array items => Name.isValid name.toList = true ∧ ∀ t, .table t ∈ items → Entries.PlainExtras t
  | _ => False

theorem Requirement.sound_of_ofOption {name : String} {value : Toml} {r : Requirement}
    (h : Requirement.ofOption name value = .ok r) : Declared.Sound r ↔ value.Fits name := by
  cases value with
  | string text => exact iff_of_true (of_ofText h).1 trivial
  | table t => exact Entries.sound_iff h
  | _ => nomatch h

/-- Under a package name, an option has the name of its choice. -/
theorem Requirement.name_of_ofOption {name : String} {value : Toml} {r : Requirement}
    (hname : Name.isValid name.toList = true) (h : Requirement.ofOption name value = .ok r) :
    r.name = name := by
  cases value with
  | string text => exact (of_ofText h).2 hname
  | table t => exact (Entries.of_requirement h).1
  | _ => nomatch h

namespace Dependency

theorem sound_oneOf {name : String} {options : List Requirement} (hne : options ≠ []) :
    Dependency.Sound (Declared.plain name (.oneOf options)) ↔
      Name.isValid name.toList = true ∧ ∀ r ∈ options, Declared.Sound r ∧ r.name = name :=
  ⟨fun h => ⟨h.declared.name, h.choice.2⟩, fun h => ⟨⟨h.1, nofun⟩, hne, h.2⟩⟩

/-- A value denotes a requirement, or a choice with an option for each of its values. -/
theorem ofValue_cases {name : String} {value : Toml} {d : Dependency}
    (h : Dependency.ofValue name value = .ok d) :
    (∃ r, Requirement.ofOption name value = .ok r ∧ d = r.toDependency) ∨
      ∃ items options, value = .array items ∧ items.mapM (Requirement.ofOption name) = .ok options ∧
        options ≠ [] ∧ d = Declared.plain name (.oneOf options) := by
  cases value with
  | string text =>
    obtain ⟨r, hr, rfl⟩ := Outcome.of_map h
    exact Or.inl ⟨r, hr, rfl⟩
  | table t =>
    obtain ⟨r, hr, rfl⟩ := Outcome.of_map h
    exact Or.inl ⟨r, hr, rfl⟩
  | array items =>
    cases items with
    | nil => nomatch h
    | cons item items =>
      obtain ⟨options, hoptions, h⟩ := Outcome.of_bind h
      refine Or.inr ⟨item :: items, options, rfl, hoptions, ?_, (Except.ok.inj h).symm⟩
      rintro rfl
      nomatch Outcome.length_of_mapM hoptions
  | _ => nomatch h

/-- A configured dependency is sound exactly if its name and its value are in order. -/
theorem sound_of_ofValue {name : String} {value : Toml} {d : Dependency}
    (h : Dependency.ofValue name value = .ok d) : d.Sound ↔ value.Fits name := by
  rcases ofValue_cases h with ⟨r, hr, rfl⟩ | ⟨items, options, rfl, hoptions, hne, rfl⟩
  · rw [sound_toDependency, Requirement.sound_of_ofOption hr]
  · rw [sound_oneOf hne, Toml.Fits]
    refine and_congr_right fun hname => ?_
    have hoption : ∀ item ∈ items, ∀ r, Requirement.ofOption name item = .ok r →
        (Declared.Sound r ∧ r.name = name ↔ ∀ t, item = .table t → Entries.PlainExtras t) := by
      intro item _ r hr
      rw [Requirement.sound_of_ofOption hr, and_iff_left (Requirement.name_of_ofOption hname hr)]
      cases item with
      | string text => exact iff_of_true trivial nofun
      | table t =>
        refine (and_iff_right hname).trans ⟨?_, fun hplain => hplain t rfl⟩
        rintro hplain _ ⟨⟩
        exact hplain
      | _ => nomatch hr
    rw [Outcome.forall_mem_of_mapM hoptions hoption]
    exact ⟨fun h t ht => h _ ht t rfl, fun h item hitem t ht => h t (ht ▸ hitem)⟩

/-- A list of texts denotes sound dependencies, and a table by names denotes such as are configured in
order. -/
theorem sound_of_listOf {value : Toml} {ds : List Dependency}
    (h : Dependency.listOf value = .ok ds) : (∀ d ∈ ds, d.Sound) ↔
      ∀ entries, value = .table entries → ∀ entry ∈ entries, entry.2.Fits entry.1 := by
  cases value with
  | array items =>
    refine iff_of_true (fun d hd => ?_) nofun
    obtain ⟨item, -, hitem⟩ := Outcome.mem_of_mapM h hd
    cases item with
    | string text =>
      obtain ⟨r, hr, rfl⟩ := Outcome.of_map hitem
      exact sound_toDependency.2 (Requirement.sound_of_read hr)
    | _ => nomatch hitem
  | table entries =>
    rw [Outcome.forall_mem_of_mapM h fun entry _ d hd => sound_of_ofValue hd]
    refine ⟨?_, fun hfits => hfits entries rfl⟩
    rintro hfits _ ⟨⟩
    exact hfits
  | _ => nomatch h

/-- What is configured is sound exactly if it is in order, and what has no options or nests them is
refused. -/
theorem sound_iff_fits (name : String) (value : Toml) :
    (∀ d, Dependency.ofValue name value = .ok d →
      (d.Sound ↔ value.Fits name) ∧ ∀ options, d.subject = .oneOf options → options ≠ []) ∧
    (∀ ds, Dependency.listOf value = .ok ds →
      ((∀ d ∈ ds, d.Sound) ↔
        ∀ entries, value = .table entries → ∀ entry ∈ entries, entry.2.Fits entry.1)) ∧
    ∀ items, value = .array items → (items = [] ∨ ∃ inner, .array inner ∈ items) →
      ∃ e, Dependency.ofValue name value = .error e := by
  refine ⟨fun d h => ⟨sound_of_ofValue h, ?_⟩, fun ds => sound_of_listOf, ?_⟩
  · intro options hsubject
    rcases ofValue_cases h with ⟨r, -, rfl⟩ | ⟨items, options', -, -, hne, rfl⟩
    · nomatch hsubject
    · rwa [← Choice.oneOf.inj hsubject]
  · rintro items rfl hitems
    cases h : Dependency.ofValue name (.array items) with
    | error e => exact ⟨e, rfl⟩
    | ok d =>
      rcases ofValue_cases h with ⟨r, hr, -⟩ | ⟨items', options, heq, hoptions, hne, -⟩
      · nomatch hr
      · obtain rfl := Toml.array.inj heq
        rcases hitems with rfl | ⟨inner, hinner⟩
        · nomatch h
        · obtain ⟨r, hr⟩ := Outcome.of_mapM hoptions hinner
          nomatch hr

/-- A choice between two tables, of which one has an extra. -/
def twoTables : Toml :=
  .array [.table [("version", .string "<2"), ("extras", .array [.string "docs"])],
    .table [("version", .string ">=2")]]

/-- Under a package name the choice is sound, and under the name with a bracket it is not. -/
theorem sound_iff_fits_twoTables :
    (∃ d, Dependency.ofValue "kek" twoTables = .ok d ∧ d.Sound) ∧
      ∃ d, Dependency.ofValue "kek[docs]" twoTables = .ok d ∧ ¬d.Sound := by
  have hplain : Toml.Fits "kek" twoTables := by
    refine ⟨by decide, fun t ht => ?_⟩
    simp only [List.mem_cons, Toml.table.injEq, List.not_mem_nil, or_false] at ht
    rcases ht with rfl | rfl
    · rintro items ⟨⟩ e he
      obtain rfl := Toml.string.inj (List.mem_singleton.1 he)
      exact ⟨by decide, by decide⟩
    · exact nofun
  have hinvalid : ¬Toml.Fits "kek[docs]" twoTables := fun h => absurd h.1 (by decide)
  refine ⟨⟨_, rfl, ?_⟩, _, rfl, ?_⟩
  · exact ((sound_iff_fits "kek" twoTables).1 _ rfl).1.2 hplain
  · exact fun h => hinvalid (((sound_iff_fits "kek[docs]" twoTables).1 _ rfl).1.1 h)

/-- Not every configured dependency is sound: a table takes a name that is none. -/
theorem not_sound_unnamed : ¬∀ (name : String) (value : Toml) (d : Dependency),
    Dependency.ofValue name value = .ok d → d.Sound := by
  intro h
  have hvalue : ∃ d, Dependency.ofValue "" (.table [("version", .string "1.0")]) = .ok d ∧
      d.name = "" := ⟨_, rfl, rfl⟩
  obtain ⟨d, hd, hname⟩ := hvalue
  have hvalid := (h _ _ _ hd).declared.name
  rw [hname] at hvalid
  nomatch hvalid

end Dependency

end Requisite
