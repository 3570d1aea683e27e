import Mathlib.Data.List.Perm.Basic
import Requisite.Index.Spec
import Requisite.Proofs.Outcome
import Requisite.Proofs.Text.Pieces

/-!
# Reading and writing descriptions of indexes

A description is read part by part, and its parts are only looked up by their keys afterwards.  So
their order does not matter, and what is written for an index is read as that index again, but for the
password, which is not written.

* `IndexSpec.Reads` — a text that is read as a key and a value;
* `IndexSpec.value?`, `IndexSpec.Complete` — the value under a key, and parts that describe an
  index, told by looking them up;
* **`IndexSpec.read_eq_ok_iff`** — what is read: every text between commas is a part, no key comes
  twice, and the parts describe the index;
* **`IndexSpec.read_perm`** — the order of the parts does not matter;
* **`IndexSpec.Readable.read_written`** — what is written for an index is read as that index;
* **`IndexSpec.parse_toString_masked`** — both for texts, and nothing is shown of a password.
-/

namespace Requisite.IndexSpec

open Text

/-! ### Parts -/

theorem Key.read?_eq_some_iff {cs : List Char} {key : Key} :
    Key.read? cs = some key ↔ cs = key.text.toList := by
  constructor
  · intro h
    have hkey := List.find?_some h
    exact (beq_iff_eq.1 hkey).symm
  · rintro rfl
    cases key <;> rfl

/-- A text is read as a key and a value, which stand before and behind its first sign of equality, with
blanks around them. -/
inductive Reads : List Char → Key × List Char → Prop
  | part {key : Key} {before after : List Char} (hsign : '=' ∉ before)
      (hkey : trim before = key.text.toList) : Reads (before ++ '=' :: after) (key, trim after)

theorem readPart_eq_ok_iff {text : List Char} {part : Key × List Char} :
    readPart text = .ok part ↔ Reads text part := by
  constructor
  · intro h
    unfold readPart at h
    split at h
    next => nomatch h
    next before after hcut =>
      split at h
      next => nomatch h
      next key hkey =>
        cases h
        obtain ⟨rfl, hsign⟩ := cut_eq_some.1 hcut
        exact .part hsign (Key.read?_eq_some_iff.1 hkey)
  · rintro ⟨hsign, hkey⟩
    rw [readPart, cut_append hsign]
    dsimp only
    rw [Key.read?_eq_some_iff.2 hkey]

/-! ### All parts -/

theorem value?_append_singleton_eq_none {parts : Parts} {part : Key × List Char} {key : Key} :
    Parts.value? (parts ++ [part]) key = none ↔ parts.value? key = none ∧ key ≠ part.1 := by
  simp only [Parts.value?, List.lookup_append, Option.or_eq_none_iff, List.lookup_eq_none_iff,
    List.forall_mem_singleton, bne_iff_ne]

/-- Texts are read after others if every one of them is, and none of their keys has come before. -/
theorem readParts_eq_ok_iff {seen parts : Parts} {texts : List (List Char)} :
    readParts seen texts = .ok parts ↔ ∃ new, parts = seen ++ new ∧ List.Forall₂ Reads texts new ∧
      (new.map Prod.fst).Nodup ∧ ∀ part ∈ new, seen.value? part.1 = none := by
  induction texts generalizing seen with
  | nil =>
    constructor
    · intro h
      obtain rfl := Except.ok.inj h
      exact ⟨[], (List.append_nil _).symm, .nil, List.nodup_nil, nofun⟩
    · rintro ⟨new, rfl, hnew, -⟩
      obtain rfl := List.forall₂_nil_left_iff.1 hnew
      rw [List.append_nil]
      rfl
  | cons text texts ih =>
    constructor
    · intro h
      rw [readParts] at h
      split at h
      next => nomatch h
      next key value hpart =>
        split at h
        next => nomatch h
        next hseen =>
          rw [Bool.not_eq_true, Option.isSome_eq_false_iff, Option.isNone_iff_eq_none] at hseen
          obtain ⟨new, rfl, hnew, hnodup, hfresh⟩ := ih.1 h
          simp only [value?_append_singleton_eq_none] at hfresh
          refine ⟨(key, value) :: new, by simp, .cons (readPart_eq_ok_iff.1 hpart) hnew, ?_, ?_⟩
          · rw [List.map_cons, List.nodup_cons, List.mem_map]
            exact ⟨fun ⟨part, hmem, heq⟩ => (hfresh part hmem).2 heq, hnodup⟩
          · exact List.forall_mem_cons.2 ⟨hseen, fun part hmem => (hfresh part hmem).1⟩
    · rintro ⟨new, rfl, hnew, hnodup, hfresh⟩
      obtain ⟨part, new, hpart, htexts, rfl⟩ := List.forall₂_cons_left_iff.1 hnew
      obtain ⟨hseen, hfresh⟩ := List.forall_mem_cons.1 hfresh
      rw [List.map_cons, List.nodup_cons, List.mem_map] at hnodup
      rw [readParts, readPart_eq_ok_iff.2 hpart]
      dsimp only
      rw [hseen, Option.isSome_none, if_neg Bool.false_ne_true]
      refine ih.2 ⟨new, by simp, htexts, hnodup.2, fun part' hmem => ?_⟩
      exact value?_append_singleton_eq_none.2
        ⟨hfresh part' hmem, fun heq => hnodup.1 ⟨part', hmem, heq⟩⟩

/-- The parts of a description are found by their keys, of which each comes once. -/
theorem value?_eq_some_iff {parts : Parts} (hnodup : (parts.map Prod.fst).Nodup) {key : Key}
    {value : List Char} : parts.value? key = some value ↔ (key, value) ∈ parts := by
  induction parts with
  | nil => exact ⟨nofun, nofun⟩
  | cons part parts ih =>
    obtain ⟨key', value'⟩ := part
    rw [List.map_cons, List.nodup_cons, List.mem_map] at hnodup
    rw [Parts.value?, List.lookup_cons, List.mem_cons, Prod.mk.injEq]
    by_cases hkey : key = key'
    · subst hkey
      rw [beq_self_eq_true]
      dsimp only
      rw [Option.some.injEq, eq_comm, eq_self_iff_true, true_and, or_iff_left]
      exact fun hmem => hnodup.1 ⟨(key, value), hmem, rfl⟩
    · rw [beq_eq_false_iff_ne.2 hkey]
      dsimp only
      rw [← Parts.value?, ih hnodup.2, or_iff_right fun h => hkey h.1]

theorem value?_perm {parts parts' : Parts} (hperm : parts.Perm parts')
    (hnodup : (parts.map Prod.fst).Nodup) (key : Key) : parts.value? key = parts'.value? key := by
  have hnodup' := (hperm.map Prod.fst).nodup_iff.1 hnodup
  refine Option.ext fun value => ?_
  rw [value?_eq_some_iff hnodup, value?_eq_some_iff hnodup', hperm.mem_iff]

/-! ### The index of a description -/

/-- The value that an index has for a key. -/
def value? (spec : IndexSpec) : Key → Option (List Char)
  | .name => some spec.name.toList
  | .url => some spec.url.toList
  | .username => spec.username.map String.toList
  | .password => spec.password.map String.toList

/-- An index has a name and a URL, and a password only with a user. -/
structure Complete (spec : IndexSpec) : Prop where
  name_ne : spec.name ≠ ""
  url_ne : spec.url ≠ ""
  login : spec.password ≠ none → spec.username ≠ none

theorem required_eq_ok_iff {parts : Parts} {key : Key} {text : String} :
    parts.required key = .ok text ↔ parts.value? key = some text.toList ∧ text ≠ "" := by
  rw [Parts.required]
  constructor
  · intro h
    split at h
    next => nomatch h
    next => nomatch h
    next value hne hvalue =>
      obtain rfl := Except.ok.inj h
      rw [String.toList_ofList]
      refine ⟨hvalue, fun hempty => hne ?_⟩
      rw [← String.toList_ofList (l := value), hempty]
      rfl
  · rintro ⟨hvalue, hne⟩
    rw [hvalue]
    split
    next heq => nomatch heq
    next heq => exact absurd (String.toList_eq_nil_iff.1 (Option.some.inj heq)) hne
    next heq =>
      rw [← Option.some.inj heq, String.ofList_toList]

theorem map_ofList_eq_iff {o : Option (List Char)} {o' : Option String} :
    o.map String.ofList = o' ↔ o = o'.map String.toList := by
  constructor <;> rintro rfl <;> simp

/-- Parts describe the index that has their values, if that is complete. -/
theorem ofParts_eq_ok_iff {parts : Parts} {spec : IndexSpec} :
    ofParts parts = .ok spec ↔ (∀ key, parts.value? key = spec.value? key) ∧ spec.Complete := by
  constructor
  · intro h
    unfold ofParts at h
    split at h
    next => nomatch h
    next => nomatch h
    next name url hname hurl =>
      dsimp only at h
      split at h
      next => nomatch h
      next hlogin =>
        obtain rfl := Except.ok.inj h
        obtain ⟨hname, hname_ne⟩ := required_eq_ok_iff.1 hname
        obtain ⟨hurl, hurl_ne⟩ := required_eq_ok_iff.1 hurl
        refine ⟨fun key => ?_, hname_ne, hurl_ne, fun hpassword husername => ?_⟩
        · cases key with
          | name => exact hname
          | url => exact hurl
          | username => exact map_ofList_eq_iff.1 rfl
          | password => exact map_ofList_eq_iff.1 rfl
        · refine hlogin (Bool.and_eq_true_iff.2 ⟨?_, ?_⟩)
          · exact Option.isSome_iff_ne_none.2 hpassword
          · exact Option.isNone_iff_eq_none.2 husername
  · rintro ⟨hvalues, hname_ne, hurl_ne, hlogin⟩
    unfold ofParts
    rw [required_eq_ok_iff.2 ⟨hvalues .name, hname_ne⟩,
      required_eq_ok_iff.2 ⟨hvalues .url, hurl_ne⟩]
    dsimp only
    rw [map_ofList_eq_iff.2 (hvalues .username), map_ofList_eq_iff.2 (hvalues .password), if_neg]
    cases hpassword : spec.password with
    | none => exact Bool.false_ne_true
    | some password =>
      obtain ⟨username, husername⟩ :=
        Option.ne_none_iff_exists'.1 (hlogin (hpassword ▸ Option.some_ne_none password))
      rw [husername]
      exact Bool.false_ne_true

/-- A description is read as an index if every text between commas is a part, no key comes twice, and
the index is complete and has the values of the parts. -/
theorem read_eq_ok_iff {cs : List Char} {spec : IndexSpec} :
    read cs = .ok spec ↔ ∃ parts : Parts, List.Forall₂ Reads (cs.splitOn ',') parts ∧
      (parts.map Prod.fst).Nodup ∧ (∀ key, parts.value? key = spec.value? key) ∧ spec.Complete := by
  have hparts : ∀ parts, readParts [] (cs.splitOn ',') = .ok parts ↔
      List.Forall₂ Reads (cs.splitOn ',') parts ∧ (parts.map Prod.fst).Nodup := by
    intro parts
    rw [readParts_eq_ok_iff]
    constructor
    · rintro ⟨new, rfl, hnew, hnodup, -⟩
      exact ⟨hnew, hnodup⟩
    · rintro ⟨hnew, hnodup⟩
      exact ⟨parts, rfl, hnew, hnodup, fun _ _ => rfl⟩
  constructor
  · intro h
    unfold read at h
    split at h
    next => nomatch h
    next parts hread =>
      obtain ⟨hnew, hnodup⟩ := (hparts parts).1 hread
      exact ⟨parts, hnew, hnodup, ofParts_eq_ok_iff.1 h⟩
  · rintro ⟨parts, hnew, hnodup, hspec⟩
    rw [read, (hparts parts).2 ⟨hnew, hnodup⟩]
    exact ofParts_eq_ok_iff.2 hspec

/-- The order of the parts does not matter. -/
theorem read_perm {cs ds : List Char} (hperm : (cs.splitOn ',').Perm (ds.splitOn ','))
    {spec : IndexSpec} (h : read cs = .ok spec) : read ds = .ok spec := by
  obtain ⟨parts, hparts, hnodup, hvalues, hcomplete⟩ := read_eq_ok_iff.1 h
  obtain ⟨parts', hparts', hperm'⟩ := List.perm_comp_forall₂ hperm.symm hparts
  refine read_eq_ok_iff.2
    ⟨parts', hparts', (hperm'.map Prod.fst).nodup_iff.2 hnodup, fun key => ?_, hcomplete⟩
  rw [← value?_perm hperm'.symm hnodup, hvalues]

/-! ### What is written -/

/-- A value that is read as it is written: no comma stands in it, and no blank at its ends. -/
structure IsValue (cs : List Char) : Prop where
  trimmed : trim cs = cs
  plain : ',' ∉ cs

/-- The indexes that a text can describe. -/
structure Readable (spec : IndexSpec) : Prop extends Complete spec where
  values : ∀ key, ∀ value ∈ spec.value? key, IsValue value

/-- The parts of an index. -/
def parts (spec : IndexSpec) : Parts :=
  [Key.name, .url, .username, .password].filterMap fun key => (spec.value? key).map (key, ·)

/-- A part as it is written. -/
def partChars (part : Key × List Char) : List Char :=
  part.1.text.toList ++ '=' :: part.2

theorem value?_parts (spec : IndexSpec) (key : Key) : spec.parts.value? key = spec.value? key := by
  obtain ⟨name, url, username, password⟩ := spec
  cases key <;> cases username <;> cases password <;> rfl

theorem nodup_parts (spec : IndexSpec) : (spec.parts.map Prod.fst).Nodup := by
  obtain ⟨name, url, username, password⟩ := spec
  cases username <;> cases password <;> simp [parts, value?]

/-- The description of an index has its parts, but for the password. -/
theorem chars_eq (spec : IndexSpec) :
    spec.chars = [','].intercalate (spec.masked.parts.map partChars) := by
  have hname : "name=".toList = Key.name.text.toList ++ ['='] := by decide
  have hurl : ",url=".toList = ',' :: (Key.url.text.toList ++ ['=']) := by decide
  have husername : ",username=".toList = ',' :: (Key.username.text.toList ++ ['=']) := by decide
  have hpassword : ",password=".toList = ',' :: (Key.password.text.toList ++ ['=']) := by decide
  obtain ⟨name, url, username, password⟩ := spec
  unfold chars
  simp only [hname, hurl, husername, hpassword]
  cases username <;> cases password <;>
    simp [masked, parts, value?, partChars, List.intercalate_cons_cons]

theorem reads_partChars {part : Key × List Char} (h : IsValue part.2) :
    Reads (partChars part) part := by
  obtain ⟨key, value⟩ := part
  have hread : Reads (key.text.toList ++ '=' :: value) (key, trim value) := by
    refine .part ?_ ?_ <;> cases key <;> decide
  rwa [show trim value = value from h.trimmed] at hread

/-- An index is read from its parts as they are written. -/
theorem Readable.read_written {spec : IndexSpec} (h : Readable spec) :
    read ([','].intercalate (spec.parts.map partChars)) = .ok spec := by
  have hvalue : ∀ part ∈ spec.parts, IsValue part.2 := by
    intro part hpart
    refine h.values part.1 part.2 ?_
    rw [Option.mem_def, ← value?_parts]
    exact (value?_eq_some_iff (nodup_parts spec)).2 hpart
  have hsplit : ([','].intercalate (spec.parts.map partChars)).splitOn ',' =
      spec.parts.map partChars := by
    refine List.splitOn_intercalate ',' (fun text htext => ?_) (by simp [parts, value?])
    obtain ⟨⟨key, value⟩, hpart, rfl⟩ := List.mem_map.1 htext
    have hkey : ',' ∉ key.text.toList := by cases key <;> decide
    simp only [partChars, List.mem_append, List.mem_cons, not_or]
    exact ⟨hkey, by decide, (hvalue _ hpart).plain⟩
  refine read_eq_ok_iff.2
    ⟨spec.parts, ?_, nodup_parts spec, value?_parts spec, h.toComplete⟩
  rw [hsplit, List.forall₂_map_left_iff, List.forall₂_same]
  exact fun part hpart => reads_partChars (hvalue part hpart)

/-- What is read from texts without commas are values. -/
theorem isValue_of_reads {texts : List (List Char)} {parts : Parts}
    (h : List.Forall₂ Reads texts parts) (hplain : ∀ text ∈ texts, ',' ∉ text) :
    ∀ part ∈ parts, IsValue part.2 := by
  induction h with
  | nil => exact nofun
  | @cons text part texts parts hread _ ih =>
    obtain ⟨htext, htexts⟩ := List.forall_mem_cons.1 hplain
    refine List.forall_mem_cons.2 ⟨?_, ih htexts⟩
    obtain ⟨hsign, hkey⟩ := hread
    refine ⟨trim_trim _, fun hcomma => htext ?_⟩
    exact List.mem_append_right _ (List.mem_cons_of_mem _ ((isInfix_trim _).subset hcomma))

/-- What was read can be read again. -/
theorem readable_of_read {cs : List Char} {spec : IndexSpec} (h : read cs = .ok spec) :
    Readable spec := by
  obtain ⟨parts, hparts, hnodup, hvalues, hcomplete⟩ := read_eq_ok_iff.1 h
  refine ⟨hcomplete, fun key value hvalue => ?_⟩
  rw [Option.mem_def, ← hvalues, value?_eq_some_iff hnodup] at hvalue
  exact isValue_of_reads hparts (fun text htext => notMem_of_mem_splitOn htext) _ hvalue

/-- Masking the password of a readable index leaves a readable one. -/
theorem Readable.masked {spec : IndexSpec} (h : Readable spec) : Readable spec.masked where
  name_ne := h.name_ne
  url_ne := h.url_ne
  login hpassword := h.login fun hnone => hpassword (by rw [IndexSpec.masked, hnone]; rfl)
  values key value hvalue := by
    cases key with
    | name => exact h.values .name value hvalue
    | url => exact h.values .url value hvalue
    | username => exact h.values .username value hvalue
    | password =>
      have hmask : value = Url.mask := by
        obtain ⟨password, hpassword, rfl⟩ := Option.map_eq_some_iff.1 hvalue
        obtain ⟨password', -, rfl⟩ := Option.map_eq_some_iff.1 hpassword
        exact String.toList_ofList
      rw [hmask]
      exact ⟨by decide, by decide⟩

/-! ### Texts -/

theorem parse_eq_ok_iff {text : String} {spec : IndexSpec} :
    parse text = .ok spec ↔ read text.toList = .ok spec := by
  rw [parse]
  refine ⟨Outcome.of_mapError, fun h => ?_⟩
  rw [h]
  rfl

/-- The index that was described is described by its text, but for its password.  The order of the parts
of a description does not matter.  The text of an index tells nothing of its password but that there
is one. -/
theorem parse_toString_masked (text : String) :
    (∀ spec, parse text = .ok spec →
      parse (toString spec) = .ok { spec with password := spec.password.map fun _ => "***" }) ∧
    (∀ text' : String, (text'.toList.splitOn ',').Perm (text.toList.splitOn ',') →
      ∀ spec, parse text' = .ok spec ↔ parse text = .ok spec) ∧
    ∀ (spec : IndexSpec) (password password' : String),
      toString { spec with password := some password } =
        toString { spec with password := some password' } := by
  refine ⟨fun spec h => ?_, fun text' hperm spec => ?_, fun spec password password' => rfl⟩
  · have hreadable := (readable_of_read (parse_eq_ok_iff.1 h)).masked
    refine parse_eq_ok_iff.2 ?_
    rw [show (toString spec).toList = spec.chars from String.toList_ofList, chars_eq]
    exact hreadable.read_written
  · rw [parse_eq_ok_iff, parse_eq_ok_iff]
    exact ⟨read_perm hperm, read_perm hperm.symm⟩

/-- Blanks around the parts, signs of equality in the values, an empty user, and the parts in another
order. -/
theorem parse_toString_masked_padded :
    parse "name=x,url=https://e.com/?a=b,username=,password=***" =
        .ok ⟨"x", "https://e.com/?a=b", some "", some "***"⟩ ∧
      parse " name = x ,url=https://e.com/?a=b,username=, password= a=b" =
        .ok ⟨"x", "https://e.com/?a=b", some "", some "a=b"⟩ := by
  have hread : parse " password= a=b,username=,url=https://e.com/?a=b, name = x " =
      .ok ⟨"x", "https://e.com/?a=b", some "", some "a=b"⟩ := by decide +kernel
  have htext : toString (⟨"x", "https://e.com/?a=b", some "", some "a=b"⟩ : IndexSpec) =
      "name=x,url=https://e.com/?a=b,username=,password=***" := by decide +kernel
  have hperm : (" name = x ,url=https://e.com/?a=b,username=, password= a=b".toList.splitOn ',').Perm
      (" password= a=b,username=,url=https://e.com/?a=b, name = x ".toList.splitOn ',') := by
    decide +kernel
  obtain ⟨hmasked, horder, -⟩ :=
    parse_toString_masked " password= a=b,username=,url=https://e.com/?a=b, name = x "
  refine ⟨?_, (horder _ hperm _).2 hread⟩
  rw [← htext]
  exact hmasked _ hread

end Requisite.IndexSpec
