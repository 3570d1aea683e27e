import Mathlib.Data.List.Induction
import Mathlib.Data.String.Basic
import Requisite.Config.Settings
import Requisite.Proofs.Keys
import Requisite.Proofs.Outcome

/-!
# Indexes after calls

Indexes are registered by one call after the other, some of which fail.  What is known of a name is
what was registered for it last, and the default index, which is only told by its name, is always a
registered one.

* `Indexes.after` — the indexes after some calls;
* `Indexes.entries` — what the calls that succeeded have registered;
* **`Indexes.Records.add`**, **`Indexes.records_after`** — the indexes after one call and after all
  of them: the last entry for a name is in force, and so is the last default;
* `Indexes.Others`, `Indexes.Lists` — arguments with one pair for each index, the default one first;
* **`Indexes.records_lists_after`**, **`Indexes.records_lists_addSpec`** — both for the indexes after
  some calls, and for those with one more described index;
* **`Settings.records_indexes`**, **`Settings.exists_arguments_of_options`** — the indexes of a
  project, for which pip always gets its arguments.
-/

namespace Requisite

open Std

namespace Indexes

/-! ### Calls -/

/-- What is registered for an index. -/
structure Entry where
  name : String
  url : String
  isDefault : Bool

/-- A call that registers an index, by its URL or by its description. -/
inductive Registration
  | add (name url : String) (isDefault : Bool)
  | addSpec (spec : IndexSpec) (isDefault : Bool)

/-- The indexes that a call leads to, by a way to find the URL of a described index. -/
def Registration.run (locate : IndexSpec → Except IndexError String) (ix : Indexes) :
    Registration → Except IndexError Indexes
  | .add name url isDefault => .ok (ix.add name url isDefault)
  | .addSpec spec isDefault => ix.addAt locate spec isDefault

/-- What a call registers if it succeeds. -/
def Registration.entry? (locate : IndexSpec → Except IndexError String) :
    Registration → Option Entry
  | .add name url isDefault => some ⟨name, url, isDefault⟩
  | .addSpec spec isDefault => (locate spec).toOption.map fun url => ⟨spec.name, url, isDefault⟩

section

variable (locate : IndexSpec → Except IndexError String)

/-- The indexes after one more call, which leaves them alone if it fails. -/
def step (ix : Indexes) (call : Registration) : Indexes :=
  match call.run locate ix with
  | .ok ix' => ix'
  | .error _ => ix

/-- The indexes after some calls. -/
def after (calls : List Registration) : Indexes :=
  calls.foldl (step locate) ∅

/-- What the calls that succeed register, in their order. -/
def entries (calls : List Registration) : List Entry :=
  calls.filterMap (Registration.entry? locate)

end

variable {locate : IndexSpec → Except IndexError String}

/-- A call succeeds exactly if it has something to register, whatever the indexes are. -/
theorem Registration.run_eq_ok_iff {call : Registration} {ix ix' : Indexes} :
    call.run locate ix = .ok ix' ↔ ∃ entry, call.entry? locate = some entry ∧
      ix.add entry.name entry.url entry.isDefault = ix' := by
  cases call with
  | add name url isDefault =>
    constructor
    · intro h
      exact ⟨_, rfl, Except.ok.inj h⟩
    · rintro ⟨entry, hentry, rfl⟩
      obtain rfl := Option.some.inj hentry
      rfl
  | addSpec spec isDefault =>
    rw [run, addAt, entry?]
    cases locate spec with
    | error e =>
      constructor
      · intro h
        nomatch h
      · rintro ⟨entry, hentry, -⟩
        nomatch hentry
    | ok url =>
      constructor
      · intro h
        exact ⟨_, rfl, Except.ok.inj h⟩
      · rintro ⟨entry, hentry, rfl⟩
        obtain rfl := Option.some.inj hentry
        rfl

theorem step_of_entry {ix : Indexes} {call : Registration} {entry : Entry}
    (h : call.entry? locate = some entry) :
    step locate ix call = ix.add entry.name entry.url entry.isDefault := by
  rw [step, Registration.run_eq_ok_iff.2 ⟨entry, h, rfl⟩]

theorem step_of_entry_eq_none {ix : Indexes} {call : Registration}
    (h : call.entry? locate = none) : step locate ix call = ix := by
  rw [step]
  cases hrun : call.run locate ix with
  | error e => rfl
  | ok ix' =>
    obtain ⟨entry, hentry, -⟩ := Registration.run_eq_ok_iff.1 hrun
    rw [h] at hentry
    nomatch hentry

theorem after_append_singleton (calls : List Registration) (call : Registration) :
    after locate (calls ++ [call]) = step locate (after locate calls) call := by
  rw [after, List.foldl_append]
  rfl

theorem entries_append_singleton (calls : List Registration) (call : Registration) :
    entries locate (calls ++ [call]) = entries locate calls ++ (call.entry? locate).toList := by
  rw [entries, List.filterMap_append, List.filterMap_cons, List.filterMap_nil]
  cases call.entry? locate <;> rfl

/-! ### The last entry is in force -/

/-- The last entry of a kind. -/
def last? (kind : Entry → Bool) (entries : List Entry) : Option Entry :=
  (entries.filter kind).getLast?

theorem last?_append_singleton (kind : Entry → Bool) (entries : List Entry) (entry : Entry) :
    last? kind (entries ++ [entry]) = if kind entry then some entry else last? kind entries := by
  rw [last?, List.filter_append]
  cases hkind : kind entry with
  | true =>
    rw [List.filter_cons_of_pos hkind, List.filter_nil, List.getLast?_concat]
    rfl
  | false =>
    rw [List.filter_cons_of_neg (Bool.eq_false_iff.1 hkind), List.filter_nil, List.append_nil]
    rfl

theorem exists_last?_eq_some {kind : Entry → Bool} {entries : List Entry} {entry : Entry}
    (hmem : entry ∈ entries) (hkind : kind entry = true) :
    ∃ entry', last? kind entries = some entry' :=
  ⟨_, List.getLast?_eq_some_getLast (List.ne_nil_of_mem (List.mem_filter.2 ⟨hmem, hkind⟩))⟩

/-- Indexes that go by the last entry for a name, and by the last entry of a default index. -/
structure Records (entries : List Entry) (ix : Indexes) : Prop where
  default : ix.default = (last? (·.isDefault) entries).map (·.name)
  url (name : String) : ix.urls[name]? = (last? (·.name == name) entries).map (·.url)

theorem records_empty : Records [] ∅ where
  default := rfl
  url _ := ExtTreeMap.getElem?_empty

/-- One more entry is in force for its name, and for the default index if it says so; it changes
nothing else. -/
theorem Records.add {entries : List Entry} {ix : Indexes} (h : Records entries ix) (entry : Entry) :
    Records (entries ++ [entry]) (ix.add entry.name entry.url entry.isDefault) where
  default := by
    rw [Indexes.add, last?_append_singleton, h.default]
    cases entry.isDefault <;> rfl
  url name := by
    rw [Indexes.add, last?_append_singleton]
    by_cases hname : entry.name = name
    · rw [if_pos (beq_iff_eq.2 hname), ← hname, ExtTreeMap.getElem?_insert_self]
      rfl
    · rw [if_neg fun heq => hname (beq_iff_eq.1 heq), ← h.url,
        KeyMap.getElem?_insert_of_ne (Ne.symm hname)]

theorem records_after (calls : List Registration) :
    Records (entries locate calls) (after locate calls) := by
  -- from the last call backwards, since it is the last entries that are in force
  induction calls using List.reverseRecOn with
  | nil => exact records_empty
  | append_singleton calls call ih =>
    rw [after_append_singleton, entries_append_singleton]
    cases hentry : call.entry? locate with
    | none =>
      rw [step_of_entry_eq_none hentry, Option.toList_none, List.append_nil]
      exact ih
    | some entry =>
      rw [step_of_entry hentry]
      exact ih.add entry

/-- The default index is a registered one: its last entry is also an entry for its name. -/
theorem Records.exists_url {entries : List Entry} {ix : Indexes} (h : Records entries ix)
    {name : String} (hdefault : ix.default = some name) : ∃ url, ix.urls[name]? = some url := by
  rw [h.default, Option.map_eq_some_iff] at hdefault
  obtain ⟨entry, hentry, rfl⟩ := hdefault
  have hmem : entry ∈ entries := (List.mem_filter.1 (List.mem_of_getLast? hentry)).1
  have hlast : ∃ last, last? (·.name == entry.name) entries = some last :=
    exists_last?_eq_some hmem (beq_self_eq_true _)
  obtain ⟨last, hlast⟩ := hlast
  exact ⟨last.url, by rw [h.url, hlast]; rfl⟩

/-! ### Arguments -/

/-- The indexes but the default one, by ascending names. -/
structure Others (ix : Indexes) (others : List (String × String)) : Prop where
  ascending : others.Pairwise fun a b => a.1 < b.1
  url : ∀ other ∈ others, ix.urls[other.1]? = some other.2
  /-- With the default index, each registered name is there once. -/
  names : (ix.default.toList ++ others.map Prod.fst).Perm ix.urls.keys

/-- The arguments for indexes that are not the default one. -/
def extraPairs (others : List (String × String)) : List String :=
  others.flatMap fun other => ["--extra-index-url", other.2]

/-- The URL of the default index, and arguments that list this index, if there is one, and then the
others. -/
inductive Lists (ix : Indexes) : Option String → List String → Prop
  | without {others : List (String × String)} (hdefault : ix.default = none)
      (hothers : Others ix others) : Lists ix none (extraPairs others)
  | default {name url : String} {others : List (String × String)}
      (hdefault : ix.default = some name) (hurl : ix.urls[name]? = some url)
      (hothers : Others ix others) : Lists ix (some url) ("--index-url" :: url :: extraPairs others)

/-- The entries of a map but those of the default index. -/
def others (ix : Indexes) : List (String × String) :=
  ix.urls.toList.filter fun other => ix.default ≠ some other.1

theorem extraArguments_eq (ix : Indexes) : ix.extraArguments = extraPairs ix.others := by
  rw [extraArguments, extraPairs, others]
  induction ix.urls.toList with
  | nil => rfl
  | cons other rest ih =>
    rw [List.flatMap_cons, ih, List.filter_cons]
    by_cases hdefault : ix.default = some other.1
    · simp only [hdefault, ne_eq, not_true_eq_false, decide_false, if_true]
      rfl
    · simp only [hdefault, ne_eq, not_false_eq_true, decide_true, if_false, if_true]
      rfl

theorem mem_others {ix : Indexes} {name url : String} :
    (name, url) ∈ ix.others ↔ ix.urls[name]? = some url ∧ ix.default ≠ some name := by
  rw [others, List.mem_filter, ExtTreeMap.mem_toList_iff_getElem?_eq_some, decide_eq_true_iff]

theorem mem_names_others {ix : Indexes} {name : String} :
    name ∈ ix.others.map Prod.fst ↔ name ∈ ix.urls ∧ ix.default ≠ some name := by
  rw [List.mem_map, ExtTreeMap.mem_iff_isSome_getElem?, Option.isSome_iff_exists]
  constructor
  · rintro ⟨⟨_, url⟩, hmem, rfl⟩
    obtain ⟨hurl, hdefault⟩ := mem_others.1 hmem
    exact ⟨⟨url, hurl⟩, hdefault⟩
  · rintro ⟨⟨url, hurl⟩, hdefault⟩
    exact ⟨(name, url), mem_others.2 ⟨hurl, hdefault⟩, rfl⟩

/-- The other indexes in the order of a map, if the default one is registered. -/
theorem others_others {ix : Indexes}
    (hregistered : ∀ name, ix.default = some name → name ∈ ix.urls) : Others ix ix.others where
  ascending := by
    refine (ix.urls.ordered_keys_toList.imp fun {a b} hab => ?_).filter _
    exact compareOfLessAndEq_eq_lt.1 hab
  url other hmem := (mem_others.1 hmem).1
  names := by
    have hkeys : (ix.others.map Prod.fst).Sublist ix.urls.keys := by
      rw [← ExtTreeMap.map_fst_toList_eq_keys]
      exact List.filter_sublist.map _
    have hnodup : (ix.default.toList ++ ix.others.map Prod.fst).Nodup := by
      refine List.nodup_append.2 ⟨?_, (KeyMap.nodup_keys _).sublist hkeys,
        fun name hname other hother heq => ?_⟩
      · cases ix.default with
        | none => exact List.nodup_nil
        | some name => exact List.pairwise_singleton _ name
      · rw [← heq] at hother
        exact (mem_names_others.1 hother).2 (Option.mem_toList.1 hname)
    -- neither list repeats a name, so that their members decide
    refine (List.perm_ext_iff_of_nodup hnodup (KeyMap.nodup_keys _)).2 fun name => ?_
    rw [List.mem_append, Option.mem_toList, mem_names_others, ExtTreeMap.mem_keys]
    constructor
    · rintro (hdefault | ⟨hname, -⟩)
      · exact hregistered name hdefault
      · exact hname
    · intro hname
      by_cases hdefault : ix.default = some name
      · exact .inl hdefault
      · exact .inr ⟨hname, hdefault⟩

/-- The arguments for indexes that go by some entries: nothing is refused. -/
theorem Records.exists_lists {entries : List Entry} {ix : Indexes} (h : Records entries ix) :
    ∃ url args, ix.defaultUrl = .ok url ∧ ix.arguments = .ok args ∧ Lists ix url args := by
  have hothers : Others ix ix.others := by
    refine others_others fun name hdefault => ?_
    rw [ExtTreeMap.mem_iff_isSome_getElem?, Option.isSome_iff_exists]
    exact h.exists_url hdefault
  cases hdefault : ix.default with
  | none =>
    have hurl : ix.defaultUrl = .ok none := by rw [defaultUrl, hdefault]
    refine ⟨none, extraPairs ix.others, hurl, ?_, .without hdefault hothers⟩
    rw [arguments, hurl, extraArguments_eq]
    rfl
  | some name =>
    obtain ⟨url, hname⟩ := h.exists_url hdefault
    have hurl : ix.defaultUrl = .ok (some url) := by rw [defaultUrl, hdefault]; simp only [hname]
    refine ⟨some url, "--index-url" :: url :: extraPairs ix.others, hurl, ?_,
      .default hdefault hname hothers⟩
    rw [arguments, hurl, extraArguments_eq]
    rfl

/-- Indexes after any calls, of which those that fail change nothing: the last default is the
default index and every name has the URL that was registered last; the URL of the default index is
never refused; and pip gets one pair of arguments for each index, the default one first. -/
theorem records_lists_after (locate : IndexSpec → Except IndexError String)
    (calls : List Registration) :
    Records (entries locate calls) (after locate calls) ∧
      ∃ url args, (after locate calls).defaultUrl = .ok url ∧
        (after locate calls).arguments = .ok args ∧ Lists (after locate calls) url args :=
  ⟨records_after calls, (records_after calls).exists_lists⟩

/-- A described index is refused exactly if there is no URL for it, whatever the indexes are. -/
theorem addSpec_eq_error_iff {ix : Indexes} {spec : IndexSpec} {isDefault : Bool}
    {e : IndexError} : ix.addSpec spec isDefault = .error e ↔ spec.fullUrl = .error e :=
  Outcome.map_eq_error_iff

/-- A described index that is accepted after some calls is in force under its name, at its URL with
the login, and the indexes have their arguments. -/
theorem records_lists_addSpec {calls : List Registration} {spec : IndexSpec} {isDefault : Bool}
    {ix : Indexes} (h : (after IndexSpec.fullUrl calls).addSpec spec isDefault = .ok ix) :
    ∃ url, spec.fullUrl = .ok url ∧
      Records (entries IndexSpec.fullUrl calls ++ [⟨spec.name, url, isDefault⟩]) ix ∧
      ∃ url args, ix.defaultUrl = .ok url ∧ ix.arguments = .ok args ∧ Lists ix url args := by
  obtain ⟨url, hurl, rfl⟩ := Outcome.of_map h
  have hbefore : Records (entries IndexSpec.fullUrl calls) (after IndexSpec.fullUrl calls) :=
    records_after calls
  have hrecords := hbefore.add ⟨spec.name, url, isDefault⟩
  exact ⟨url, hurl, hrecords, hrecords.exists_lists⟩

/-- The second call fails, since its URL has no scheme. -/
example :
    (after IndexSpec.fullUrl [.add "first" "https://one.example/simple" true,
      .addSpec ⟨"second", "two.example/simple", some "me", none⟩ true,
      .addSpec ⟨"third", "https://three.example/simple", some "me", some "pw"⟩ false]).arguments =
      .ok ["--index-url", "https://one.example/simple",
        "--extra-index-url", "https://me:pw@three.example/simple"] := by
  decide +kernel

end Indexes

/-! ### Configured indexes -/

namespace Settings

open Indexes

/-- The call that registers a configured index. -/
def registration (source : IndexSource) : Registration :=
  .addSpec source.spec source.isDefault

theorem addSources_eq_ok {ix ix' : Indexes} {sources : List IndexSource}
    (h : addSources ix sources = .ok ix') :
    ix' = (sources.map registration).foldl (step IndexSpec.fullUrl) ix := by
  induction sources generalizing ix with
  | nil => exact (Except.ok.inj h).symm
  | cons source sources ih =>
    rw [addSources] at h
    split at h
    next e _ => nomatch h
    next ix₁ hadd =>
      have hstep : step IndexSpec.fullUrl ix (registration source) = ix₁ := by
        rw [step, registration, Registration.run]
        rw [addSpec] at hadd
        rw [hadd]
      rw [List.map_cons, List.foldl_cons, hstep]
      exact ih h

/-- The indexes of a project go by its configured indexes. -/
theorem records_indexes {s : Settings} {ix : Indexes} (h : s.indexes = .ok ix) :
    Records (entries IndexSpec.fullUrl (s.sources.map registration)) ix := by
  rw [addSources_eq_ok h]
  exact records_after _

/-- If the configured indexes are accepted, then there are arguments for them. -/
theorem exists_arguments_of_options {s : Settings} {options : InstallOptions}
    (h : s.options = .ok options) : ∃ args, options.indexes.arguments = .ok args := by
  obtain ⟨ix, hix, rfl⟩ := Outcome.of_map h
  obtain ⟨-, args, -, hargs, -⟩ := (records_indexes hix).exists_lists
  exact ⟨args, hargs⟩

end Settings

end Requisite
