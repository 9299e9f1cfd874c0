import Presence.NameTable

/-!
# Growth of name tables

Adding a name changes no other entry and gives the name a number above the mark
(`number?_add`).  A table that came about by additions thus *extends* the one it
began with: it keeps all entries, and its other numbers are above the mark of
that table (`Extends`).  So nothing that was in use before, named or not, gets
a new name.
-/

namespace Presence.NameTable

variable {t t' t'' : NameTable} {name n : String} {number k : Nat}

/-! ## Entries -/

theorem number?_eq_some_iff : t.number? n = some k ↔ t.name? k = some n := t.inverse n k

/-- No two names have the same number. -/
theorem number?_inj {m : String} (hm : t.number? m = some k) (hn : t.number? n = some k) :
    m = n := by
  rw [number?_eq_some_iff] at hm hn
  rw [hm, Option.some.injEq] at hn
  exact hn

theorem contains_iff : t.contains n = true ↔ ∃ k, t.number? n = some k := by
  rw [contains, Option.isSome_iff_exists]

theorem contains_of_number? (h : t.number? n = some k) : t.contains n = true :=
  contains_iff.2 ⟨k, h⟩

theorem number?_empty (n : String) : empty.number? n = none := Std.TreeMap.getElem?_emptyc

/-- The new pair takes the place of every pair it shares a side with. -/
theorem number?_insert_eq_some_iff :
    (t.insert name number).number? n = some k ↔
      n = name ∧ k = number ∨ n ≠ name ∧ k ≠ number ∧ t.number? n = some k := by
  simp only [number?, insert, replace, Std.TreeMap.getElem?_insert,
    Std.LawfulEqCmp.compare_eq_iff_eq]
  by_cases hn : name = n
  · subst hn
    simp [eq_comm]
  · rw [if_neg hn, getElem?_released]
    simp [Ne.symm hn, and_comm]

/-! ## Listing entries -/

theorem mem_toList_iff : (k, n) ∈ t.toList ↔ t.number? n = some k := by
  rw [number?_eq_some_iff]
  exact Std.TreeMap.mem_toList_iff_getElem?_eq_some

/-- Pairing an entry of a larger table drops nothing. -/
theorem number?_insert_iff_of_le (hle : ∀ n k, t'.number? n = some k → t.number? n = some k)
    (hentry : t.number? name = some number) :
    (t'.insert name number).number? n = some k ↔
      n = name ∧ k = number ∨ t'.number? n = some k := by
  -- A pair that shares one side with the new pair is that pair, since both are of `t`.
  rw [number?_insert_eq_some_iff]
  refine ⟨fun h => h.imp_right fun h => h.2.2, fun h => ?_⟩
  by_cases hn : n = name
  · subst hn
    have hk : t.number? n = some k := h.elim (fun h => h.2 ▸ hentry) (hle n k)
    rw [hentry, Option.some.injEq] at hk
    exact Or.inl ⟨rfl, hk.symm⟩
  · have hk := h.resolve_left fun h => hn h.1
    refine Or.inr ⟨hn, ?_, hk⟩
    rintro rfl
    exact hn (number?_inj (hle n k hk) hentry)

/-- Pairing one entry of a larger table after the other drops nothing. -/
theorem number?_foldl_insert_iff {entries : List (Nat × String)}
    (hle : ∀ n k, t'.number? n = some k → t.number? n = some k)
    (hentries : ∀ e ∈ entries, t.number? e.2 = some e.1) :
    (entries.foldl (fun s e => s.insert e.2 e.1) t').number? n = some k ↔
      (k, n) ∈ entries ∨ t'.number? n = some k := by
  induction entries generalizing t' with
  | nil => simp
  | cons e entries ih =>
      obtain ⟨number, name⟩ := e
      obtain ⟨hentry, hentries⟩ := List.forall_mem_cons.1 hentries
      have hinsert : ∀ n k, (t'.insert name number).number? n = some k → t.number? n = some k := by
        intro n k h
        rcases (number?_insert_iff_of_le hle hentry).1 h with ⟨rfl, rfl⟩ | h
        · exact hentry
        · exact hle n k h
      rw [List.foldl_cons, ih hinsert hentries, number?_insert_iff_of_le hle hentry,
        List.mem_cons, Prod.mk.injEq, or_left_comm, or_assoc, and_comm]

theorem mark_foldl_insert (entries : List (Nat × String)) (t : NameTable) :
    (entries.foldl (fun s e => s.insert e.2 e.1) t).mark =
      (entries.map Prod.fst).foldl max t.mark := by
  induction entries generalizing t with
  | nil => rfl
  | cons e entries ih =>
      rw [List.foldl_cons, ih]
      rfl

/-- Numbers that are marked as used can be marked again. -/
theorem reserve_reserve (t : NameTable) (number : Nat) :
    (t.reserve number).reserve number = t.reserve number := by
  have hmark : max (max t.mark number) number = max t.mark number := by omega
  simp only [reserve, hmark]

/-! ## Adding a name -/

theorem add_of_contains (h : t.contains name = true) : t.add name = t := if_pos h

theorem numberOf_of_number? (h : t.number? name = some k) : t.numberOf name = k := by
  rw [numberOf, h, Option.getD_some]

theorem numberOf_of_not_contains (h : t.contains name = false) : t.numberOf name = t.mark + 1 := by
  rw [contains, Option.isSome_eq_false_iff, Option.isNone_iff_eq_none] at h
  rw [numberOf, h, Option.getD_none]

/-- Only the added name can get a number, and the number is above the mark. -/
theorem number?_add (t : NameTable) (name n : String) :
    (t.add name).number? n = if n = name then some (t.numberOf name) else t.number? n := by
  by_cases hc : t.contains name = true
  · rw [add_of_contains hc]
    obtain ⟨k, hk⟩ := contains_iff.1 hc
    split
    next h => rw [h, hk, numberOf_of_number? hk]
    next => rfl
  · rw [add, if_neg hc]
    apply Option.ext
    intro k
    rw [number?_insert_eq_some_iff]
    split
    next h =>
      rw [numberOf_of_not_contains (Bool.eq_false_iff.2 hc)]
      simp [h, eq_comm]
    next h =>
      refine ⟨?_, fun hk => Or.inr ⟨h, ?_, hk⟩⟩
      · rintro (⟨hn, _⟩ | ⟨_, _, hk⟩)
        · exact absurd hn h
        · exact hk
      · have := t.le_mark n k hk
        omega

theorem contains_add (t : NameTable) (name n : String) :
    (t.add name).contains n = true ↔ n = name ∨ t.contains n = true := by
  rw [contains, number?_add, contains]
  split
  next h => simp [h]
  next h => simp [h]

theorem not_contains_add (t : NameTable) (name n : String) :
    (!(t.add name).contains n) = (n != name && !t.contains n) := by
  rw [Bool.eq_iff_iff, Bool.and_eq_true, Bool.not_eq_true', Bool.not_eq_true', bne_iff_ne,
    ← Bool.not_eq_true, contains_add, not_or, Bool.not_eq_true]

theorem mark_add_of_not_contains (h : t.contains name = false) :
    (t.add name).mark = t.mark + 1 := by
  rw [add, if_neg (Bool.eq_false_iff.1 h)]
  exact Nat.max_eq_right (Nat.le_succ _)

theorem mark_le_mark_add (t : NameTable) (name : String) : t.mark ≤ (t.add name).mark := by
  rw [add]
  split
  · exact Nat.le_refl _
  · exact Nat.le_max_left ..

/-! ## Extension -/

/-- The second table has all entries of the first, and all its other numbers are
above the mark of the first. -/
structure Extends (t t' : NameTable) : Prop where
  /-- The mark has not fallen. -/
  mark_le : t.mark ≤ t'.mark
  /-- Every name keeps its number. -/
  keeps : ∀ n k, t.number? n = some k → t'.number? n = some k
  /-- A new number is above the mark. -/
  above : ∀ n k, t'.number? n = some k → t.number? n = some k ∨ t.mark < k

namespace Extends

theorem refl (t : NameTable) : Extends t t :=
  ⟨Nat.le_refl _, fun _ _ h => h, fun _ _ h => Or.inl h⟩

theorem trans (h : Extends t t') (h' : Extends t' t'') : Extends t t'' where
  mark_le := Nat.le_trans h.mark_le h'.mark_le
  keeps := fun n k hk => h'.keeps n k (h.keeps n k hk)
  above := by
    intro n k hk
    rcases h'.above n k hk with hk | hlt
    · exact h.above n k hk
    · exact Or.inr (Nat.lt_of_le_of_lt h.mark_le hlt)

theorem add (t : NameTable) (name : String) : Extends t (t.add name) where
  mark_le := mark_le_mark_add t name
  keeps := by
    intro n k hk
    rw [number?_add]
    split
    next h => rw [← h, numberOf_of_number? hk]
    next => exact hk
  above := by
    intro n k hk
    rw [number?_add] at hk
    split at hk
    next h =>
      cases hn : t.number? name with
      | some j =>
          rw [numberOf_of_number? hn] at hk
          rw [h, hn]
          exact Or.inl hk
      | none =>
          rw [numberOf, hn, Option.getD_none, Option.some.injEq] at hk
          exact Or.inr (by omega)
    next => exact Or.inl hk

theorem contains (h : Extends t t') (hn : t.contains n = true) : t'.contains n = true := by
  obtain ⟨k, hk⟩ := contains_iff.1 hn
  exact contains_of_number? (h.keeps n k hk)

theorem mark_lt_of_new (h : Extends t t') (hn : t.number? n = none) (hk : t'.number? n = some k) :
    t.mark < k := by
  refine (h.above n k hk).resolve_left fun hold => ?_
  rw [hn] at hold
  cases hold

/-- Up to the mark of the smaller table both tables name the same numbers. -/
theorem name?_eq (h : Extends t t') (hk : k ≤ t.mark) : t'.name? k = t.name? k := by
  apply Option.ext
  intro n
  rw [← number?_eq_some_iff, ← number?_eq_some_iff]
  refine ⟨fun hn => ?_, h.keeps n k⟩
  rcases h.above n k hn with hn | hlt
  · exact hn
  · omega

end Extends

/-! ## Adding several names -/

theorem extends_foldl_add (names : List String) (t : NameTable) :
    Extends t (names.foldl add t) := by
  induction names generalizing t with
  | nil => exact .refl t
  | cons name names ih => exact (Extends.add t name).trans (ih (t.add name))

theorem contains_foldl_add (names : List String) (t : NameTable) (n : String) :
    (names.foldl add t).contains n = true ↔ n ∈ names ∨ t.contains n = true := by
  induction names generalizing t with
  | nil => simp
  | cons name names ih =>
      rw [List.foldl_cons, ih, contains_add, List.mem_cons, or_assoc, or_left_comm]

/-- Added names take up all numbers between the old and the new mark. -/
theorem exists_number?_foldl_add (names : List String) (t : NameTable) (hlow : t.mark < k)
    (hhigh : k ≤ (names.foldl add t).mark) : ∃ n, (names.foldl add t).number? n = some k := by
  induction names generalizing t with
  | nil => exact absurd hhigh (Nat.not_le_of_lt hlow)
  | cons name names ih =>
      rcases Nat.lt_or_ge (t.add name).mark k with hnext | hnext
      · exact ih (t.add name) hnext hhigh
      · refine ⟨name, (extends_foldl_add names (t.add name)).keeps name k ?_⟩
        cases hc : t.contains name with
        | true =>
            rw [add_of_contains hc] at hnext
            omega
        | false =>
            rw [mark_add_of_not_contains hc] at hnext
            rw [number?_add, if_pos rfl, numberOf_of_not_contains hc, Option.some.injEq]
            omega

/-- The numbers of new names are those between the old and the new mark. -/
theorem exists_new_foldl_add_iff (names : List String) (t : NameTable) :
    (∃ n, t.number? n = none ∧ (names.foldl add t).number? n = some k) ↔
      t.mark < k ∧ k ≤ (names.foldl add t).mark := by
  have hextends := extends_foldl_add names t
  constructor
  · rintro ⟨n, hn, hk⟩
    exact ⟨hextends.mark_lt_of_new hn hk, (names.foldl add t).le_mark n k hk⟩
  · rintro ⟨hlow, hhigh⟩
    obtain ⟨n, hk⟩ := exists_number?_foldl_add names t hlow hhigh
    refine ⟨n, ?_, hk⟩
    cases hn : t.number? n with
    | none => rfl
    | some j =>
        have hj := hextends.keeps n j hn
        rw [hk, Option.some.injEq] at hj
        have := t.le_mark n j hn
        omega

end Presence.NameTable
