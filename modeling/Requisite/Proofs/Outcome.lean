/-!
# Outcomes

What comes before a success: a result that was computed from others without a refusal.  And what
comes before the refusal of a list: the first entry that is refused.

* **`Outcome.of_bind`**, **`Outcome.of_map`**, **`Outcome.of_mapError`**, **`Outcome.of_mapM`** — the
  outcomes behind a success;
* **`Outcome.map_eq_error_iff`** — the refusals that stay when a success is changed;
* **`Outcome.mem_of_mapM`**, **`Outcome.mem_of_mapM_of_eq`**, **`Outcome.forall_mem_of_mapM`**,
  **`Outcome.length_of_mapM`** — the results of a list, one for each entry;
* **`Outcome.mapM_append`** — the results of one list after those of another;
* **`Outcome.mapM_eq_error_iff`**, **`Outcome.exists_mapM_eq_error_iff`** — a list is refused as the
  first of its entries is that is;
* **`Outcome.iff_of_toOption`** — outcomes that are successes together.
-/

namespace Requisite.Outcome

variable {ε δ α β : Type}

theorem of_bind {x : Except ε α} {f : α → Except ε β} {b : β} (h : x >>= f = .ok b) :
    ∃ a, x = .ok a ∧ f a = .ok b := by
  cases x with
  | error e => nomatch h
  | ok a => exact ⟨a, rfl, h⟩

theorem of_map {x : Except ε α} {f : α → β} {b : β} (h : x.map f = .ok b) :
    ∃ a, x = .ok a ∧ f a = b := by
  cases x with
  | error e => nomatch h
  | ok a => exact ⟨a, rfl, Except.ok.inj h⟩

theorem map_eq_error_iff {x : Except ε α} {f : α → β} {e : ε} :
    x.map f = .error e ↔ x = .error e := by
  cases x with
  | error e' => simp only [Except.map, Except.error.injEq]
  | ok a => exact iff_of_false nofun nofun

theorem of_mapError {x : Except ε α} {f : ε → δ} {a : α} (h : x.mapError f = .ok a) :
    x = .ok a := by
  cases x with
  | error e => nomatch h
  | ok a' => exact congrArg Except.ok (Except.ok.inj h)

theorem of_mapM {f : α → Except ε β} {as : List α} {bs : List β} (h : as.mapM f = .ok bs) {a : α}
    (ha : a ∈ as) : ∃ b, f a = .ok b := by
  induction as generalizing bs with
  | nil => nomatch ha
  | cons a' as ih =>
    rw [List.mapM_cons] at h
    obtain ⟨b, hb, h⟩ := of_bind h
    obtain ⟨bs', hbs, -⟩ := of_bind h
    rcases List.mem_cons.1 ha with rfl | ha
    · exact ⟨b, hb⟩
    · exact ih hbs ha

/-- Every result of a list is that of an entry. -/
theorem mem_of_mapM {f : α → Except ε β} {as : List α} {bs : List β} (h : as.mapM f = .ok bs) {b : β}
    (hb : b ∈ bs) : ∃ a ∈ as, f a = .ok b := by
  induction as generalizing bs with
  | nil =>
    obtain rfl := Except.ok.inj h
    nomatch hb
  | cons a as ih =>
    rw [List.mapM_cons] at h
    obtain ⟨b', hb', h⟩ := of_bind h
    obtain ⟨bs', hbs, h⟩ := of_bind h
    obtain rfl := Except.ok.inj h
    rcases List.mem_cons.1 hb with rfl | hb
    · exact ⟨a, List.mem_cons_self .., hb'⟩
    · obtain ⟨a', ha', hf⟩ := ih hbs hb
      exact ⟨a', List.mem_cons_of_mem a ha', hf⟩

/-- The result of every entry is among those of the list. -/
theorem mem_of_mapM_of_eq {f : α → Except ε β} {as : List α} {bs : List β} (h : as.mapM f = .ok bs)
    {a : α} (ha : a ∈ as) {b : β} (hb : f a = .ok b) : b ∈ bs := by
  induction as generalizing bs with
  | nil => nomatch ha
  | cons a' as ih =>
    rw [List.mapM_cons] at h
    obtain ⟨b', hb', h⟩ := of_bind h
    obtain ⟨bs', hbs, h⟩ := of_bind h
    obtain rfl := Except.ok.inj h
    rcases List.mem_cons.1 ha with rfl | ha
    · obtain rfl := Except.ok.inj (hb'.symm.trans hb)
      exact List.mem_cons_self ..
    · exact List.mem_cons_of_mem b' (ih hbs ha)

/-- Whatever is true of a result exactly if something is of its entry is so for a whole list. -/
theorem forall_mem_of_mapM {f : α → Except ε β} {as : List α} {bs : List β}
    (h : as.mapM f = .ok bs) {p : β → Prop} {q : α → Prop}
    (hiff : ∀ a ∈ as, ∀ b, f a = .ok b → (p b ↔ q a)) : (∀ b ∈ bs, p b) ↔ ∀ a ∈ as, q a := by
  induction as generalizing bs with
  | nil =>
    obtain rfl := Except.ok.inj h
    exact iff_of_true nofun nofun
  | cons a as ih =>
    obtain ⟨hhead, htail⟩ := List.forall_mem_cons.1 hiff
    rw [List.mapM_cons] at h
    obtain ⟨b, hb, h⟩ := of_bind h
    obtain ⟨bs, hbs, h⟩ := of_bind h
    obtain rfl := Except.ok.inj h
    rw [List.forall_mem_cons, List.forall_mem_cons, hhead b hb, ih hbs htail]

theorem length_of_mapM {f : α → Except ε β} {as : List α} {bs : List β} (h : as.mapM f = .ok bs) :
    bs.length = as.length := by
  induction as generalizing bs with
  | nil =>
    obtain rfl := Except.ok.inj h
    rfl
  | cons a as ih =>
    rw [List.mapM_cons] at h
    obtain ⟨b, -, h⟩ := of_bind h
    obtain ⟨bs', hbs, h⟩ := of_bind h
    obtain rfl := Except.ok.inj h
    exact congrArg (· + 1) (ih hbs)

/-- The results of one list after those of another. -/
theorem mapM_append {f : α → Except ε β} (as bs : List α) :
    (as ++ bs).mapM f = as.mapM f >>= fun cs => (bs.mapM f).map (cs ++ ·) := by
  rw [List.mapM_append]
  cases as.mapM f with
  | error e => rfl
  | ok cs => cases bs.mapM f <;> rfl

/-- A list is refused as its first refused entry is; what follows it does not count. -/
theorem mapM_eq_error_iff {f : α → Except ε β} {as : List α} {e : ε} :
    as.mapM f = .error e ↔ ∃ before a after, as = before ++ a :: after ∧
      (∀ b ∈ before, ∃ x, f b = .ok x) ∧ f a = .error e := by
  induction as with
  | nil =>
    refine iff_of_false nofun ?_
    rintro ⟨before, a, after, h, -⟩
    exact absurd h.symm (List.append_ne_nil_of_right_ne_nil _ (List.cons_ne_nil _ _))
  | cons a as ih =>
    cases ha : f a with
    | error e' =>
      have hrun : (a :: as).mapM f = .error e' := by
        rw [List.mapM_cons, ha]
        rfl
      rw [hrun, Except.error.injEq]
      constructor
      · rintro rfl
        exact ⟨[], a, as, rfl, nofun, ha⟩
      · rintro ⟨before, a', after, h, hbefore, ha'⟩
        rcases List.cons_eq_append_iff.1 h with ⟨rfl, heq⟩ | ⟨before, rfl, -⟩
        · obtain rfl := (List.cons.inj heq).1
          exact Except.error.inj (ha.symm.trans ha')
        · obtain ⟨x, hx⟩ := hbefore a (List.mem_cons_self ..)
          nomatch ha.symm.trans hx
    | ok b =>
      have hrun : (a :: as).mapM f = .error e ↔ as.mapM f = .error e := by
        rw [List.mapM_cons, ha]
        cases as.mapM f with
        | error e' => exact Iff.rfl
        | ok bs => exact iff_of_false nofun nofun
      rw [hrun, ih]
      constructor
      · rintro ⟨before, a', after, rfl, hbefore, ha'⟩
        exact ⟨a :: before, a', after, rfl, List.forall_mem_cons.2 ⟨⟨b, ha⟩, hbefore⟩, ha'⟩
      · rintro ⟨before, a', after, h, hbefore, ha'⟩
        rcases List.cons_eq_append_iff.1 h with ⟨rfl, heq⟩ | ⟨before, rfl, heq⟩
        · obtain rfl := (List.cons.inj heq).1
          nomatch ha.symm.trans ha'
        · exact ⟨before, a', after, heq, (List.forall_mem_cons.1 hbefore).2, ha'⟩

/-- A list is refused exactly if one of its entries is. -/
theorem exists_mapM_eq_error_iff {f : α → Except ε β} {as : List α} :
    (∃ e, as.mapM f = .error e) ↔ ∃ a ∈ as, ∃ e, f a = .error e := by
  constructor
  · rintro ⟨e, he⟩
    obtain ⟨before, a, after, rfl, -, ha⟩ := mapM_eq_error_iff.1 he
    exact ⟨a, List.mem_append_right _ (List.mem_cons_self ..), e, ha⟩
  · rintro ⟨a, ha, e, he⟩
    cases hall : as.mapM f with
    | error e' => exact ⟨e', rfl⟩
    | ok bs =>
      obtain ⟨b, hb⟩ := of_mapM hall ha
      nomatch he.symm.trans hb

/-- Where the values of two outcomes differ by an exchange, one is a success exactly if the other
one is. -/
theorem iff_of_toOption {x y : Except ε α} {f : α → α} (hf : ∀ a, f (f a) = a)
    (h : x.toOption = y.toOption.map f) :
    (∀ a, x = .ok a ↔ y = .ok (f a)) ∧ ((∃ e, x = .error e) ↔ ∃ e, y = .error e) := by
  cases x with
  | error e =>
    cases y with
    | error e' => exact ⟨fun a => iff_of_false nofun nofun, iff_of_true ⟨e, rfl⟩ ⟨e', rfl⟩⟩
    | ok b => nomatch h
  | ok a =>
    cases y with
    | error e => nomatch h
    | ok b =>
      obtain rfl : a = f b := Option.some.inj h
      refine ⟨fun c => ?_, iff_of_false nofun nofun⟩
      rw [Except.ok.injEq, Except.ok.injEq]
      constructor
      · rintro rfl
        exact (hf b).symm
      · rintro rfl
        exact hf c

end Requisite.Outcome
