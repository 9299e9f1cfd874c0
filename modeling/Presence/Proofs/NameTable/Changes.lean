import Presence.Proofs.NameTable
import Mathlib.Data.List.Basic
import Mathlib.Data.List.Nodup

/-!
# Histories of name tables

A name table comes about by changes: names are paired with numbers, names are added, and
numbers are reserved.  Pairing a name and adding one make a *pair*, unless the added name has
a number already.

The entries of a table are determined by the row of pairs that its changes made
(`number?_run`).  A pair is an entry exactly if no pair after it has its name or its number.
So a pair that lost one of its sides to another pair is gone in both directions, and it does
not come back when that pair is dropped in turn.

Which numbers are in use does not depend on the entries, but on all changes: no change uses a
number above the mark that it leaves (`numberUsed_le_mark_change`), and the mark never falls.  So
a new name gets a number above all that were ever in use, even if they have lost their names
(`numberOf_run`).

Pairing a name answers with the number that the name had, unless that is the number it is paired
with (`answer_run`).  In that case nothing changes, and yet the answer is that there was no
number (`answer_run_fails`).
-/

namespace Presence.NameTable

/-- A change of a table. -/
inductive Change where
  /-- A name is paired with a number. -/
  | insert (name : String) (number : Nat)
  /-- A name gets a number unless it has one. -/
  | add (name : String)
  /-- All numbers up to a number are marked as used. -/
  | reserve (number : Nat)
  deriving DecidableEq, Repr

/-- The table after a change. -/
def change (t : NameTable) : Change → NameTable
  | .insert name number => t.insert name number
  | .add name => t.add name
  | .reserve number => t.reserve number

/-- The table after several changes. -/
def run (t : NameTable) (changes : List Change) : NameTable := changes.foldl change t

/-- The pair that a change makes. -/
def pair? (t : NameTable) : Change → Option (Nat × String)
  | .insert name number => some (number, name)
  | .add name => if t.contains name then none else some (t.mark + 1, name)
  | .reserve _ => none

/-- The pairs that several changes make, in order. -/
def pairs (t : NameTable) : List Change → List (Nat × String)
  | [] => []
  | c :: changes => (t.pair? c).toList ++ (t.change c).pairs changes

/-- None of the pairs has a side of the entry. -/
def Spared (entry : Nat × String) (made : List (Nat × String)) : Prop :=
  ∀ p ∈ made, p.1 ≠ entry.1 ∧ p.2 ≠ entry.2

/-- The entry was made, and the pairs after it spare it. -/
def IsLast (entry : Nat × String) (made : List (Nat × String)) : Prop :=
  ∃ before after, made = before ++ entry :: after ∧ Spared entry after

variable {t : NameTable} {name n : String} {number k : Nat} {made : List (Nat × String)}

theorem spared_cons {p entry : Nat × String} :
    Spared entry (p :: made) ↔ (p.1 ≠ entry.1 ∧ p.2 ≠ entry.2) ∧ Spared entry made :=
  List.forall_mem_cons

theorem isLast_cons {p entry : Nat × String} :
    IsLast entry (p :: made) ↔ p = entry ∧ Spared entry made ∨ IsLast entry made := by
  constructor
  · rintro ⟨before, after, hmade, hspared⟩
    cases before with
    | nil =>
        cases hmade
        exact Or.inl ⟨rfl, hspared⟩
    | cons q before =>
        cases hmade
        exact Or.inr ⟨before, after, rfl, hspared⟩
  · rintro (⟨rfl, hspared⟩ | ⟨before, after, rfl, hspared⟩)
    · exact ⟨[], made, rfl, hspared⟩
    · exact ⟨p :: before, after, rfl, hspared⟩

/-! ## Changes -/

/-- A change that makes a pair inserts it, and any other keeps all entries. -/
theorem number?_change (t : NameTable) (c : Change) (n : String) :
    (t.change c).number? n =
      match t.pair? c with
      | none => t.number? n
      | some p => (t.insert p.2 p.1).number? n := by
  cases c with
  | insert name number => rfl
  | add name =>
      rw [change, add, pair?]
      cases t.contains name with
      | true => rfl
      | false => rfl
  | reserve number => rfl

theorem mark_le_mark_change (t : NameTable) (c : Change) : t.mark ≤ (t.change c).mark := by
  cases c with
  | insert name number => exact Nat.le_max_left ..
  | add name => exact mark_le_mark_add t name
  | reserve number => exact Nat.le_max_left ..

theorem mark_le_mark_run (t : NameTable) (changes : List Change) :
    t.mark ≤ (t.run changes).mark := by
  induction changes generalizing t with
  | nil => exact Nat.le_refl _
  | cons c changes ih => exact Nat.le_trans (mark_le_mark_change t c) (ih (t.change c))

/-- The entries after several changes are the pairs made last and the entries before that
were spared. -/
theorem number?_run (t : NameTable) (changes : List Change) (n : String) (k : Nat) :
    (t.run changes).number? n = some k ↔
      IsLast (k, n) (t.pairs changes) ∨
        t.number? n = some k ∧ Spared (k, n) (t.pairs changes) := by
  induction changes generalizing t with
  | nil => simp [run, pairs, IsLast, Spared]
  | cons c changes ih =>
      have hrun : t.run (c :: changes) = (t.change c).run changes := rfl
      rw [hrun, ih, number?_change, pairs]
      cases t.pair? c with
      | none => rfl
      | some p =>
          obtain ⟨number, name⟩ := p
          simp only [Option.toList_some, List.singleton_append, isLast_cons, spared_cons,
            number?_insert_eq_some_iff, Prod.mk.injEq]
          constructor
          · rintro (hlast | ⟨⟨rfl, rfl⟩ | ⟨hn, hk, hold⟩, hspared⟩)
            · exact Or.inl (Or.inr hlast)
            · exact Or.inl (Or.inl ⟨⟨rfl, rfl⟩, hspared⟩)
            · exact Or.inr ⟨hold, ⟨Ne.symm hk, Ne.symm hn⟩, hspared⟩
          · rintro ((⟨⟨rfl, rfl⟩, hspared⟩ | hlast) | ⟨hold, ⟨hk, hn⟩, hspared⟩)
            · exact Or.inr ⟨Or.inl ⟨rfl, rfl⟩, hspared⟩
            · exact Or.inl hlast
            · exact Or.inr ⟨Or.inr ⟨Ne.symm hn, Ne.symm hk, hold⟩, hspared⟩

/-! ## Numbers in use -/

/-- The largest number that a change puts to use. -/
def numberUsed (t : NameTable) : Change → Nat
  | .insert _ number => number
  | .add name => t.numberOf name
  | .reserve number => number

theorem run_append (t : NameTable) (before after : List Change) :
    t.run (before ++ after) = (t.run before).run after :=
  List.foldl_append

theorem numberUsed_le_mark_change (t : NameTable) (c : Change) :
    t.numberUsed c ≤ (t.change c).mark := by
  cases c with
  | insert name number => exact Nat.le_max_right ..
  | add name =>
      rw [numberUsed, change]
      cases hc : t.contains name with
      | false =>
          rw [numberOf_of_not_contains hc]
          exact Nat.le_of_eq (mark_add_of_not_contains hc).symm
      | true =>
          obtain ⟨k, hk⟩ := contains_iff.1 hc
          rw [numberOf_of_number? hk, add_of_contains hc]
          exact t.le_mark name k hk
  | reserve number => exact Nat.le_max_right ..

/-- What was put to use once stays below the mark, whatever becomes of its name. -/
theorem numberUsed_le_mark_run (t : NameTable) (before after : List Change) (c : Change) :
    (t.run before).numberUsed c ≤ (t.run (before ++ c :: after)).mark := by
  rw [run_append]
  calc (t.run before).numberUsed c
      ≤ ((t.run before).change c).mark := numberUsed_le_mark_change _ c
    _ ≤ ((t.run before).run (c :: after)).mark := mark_le_mark_run _ after

/-- The mark never falls.  A name that has a number keeps it when it is added, and nothing else
changes.  Any other name gets a number that is above all numbers that earlier changes paired,
gave or reserved, and that is all that its addition changes. -/
theorem numberOf_run (t : NameTable) (changes : List Change) (n : String) :
    (∀ before after, changes = before ++ after → (t.run before).mark ≤ (t.run changes).mark) ∧
    (∀ k, (t.run changes).number? n = some k →
      (t.run changes).numberOf n = k ∧ (t.run changes).add n = t.run changes) ∧
    ((t.run changes).number? n = none →
      (∀ before c after, changes = before ++ c :: after →
        (t.run before).numberUsed c < (t.run changes).numberOf n) ∧
      ((t.run changes).add n).number? n = some ((t.run changes).numberOf n) ∧
      (∀ m, m ≠ n → ((t.run changes).add n).number? m = (t.run changes).number? m) ∧
      (∀ k, k ≠ (t.run changes).numberOf n →
        ((t.run changes).add n).name? k = (t.run changes).name? k)) := by
  refine ⟨?_, fun k hk => ?_, fun hnew => ⟨?_, ?_, fun m hm => ?_, fun k hk => ?_⟩⟩
  · rintro before after rfl
    rw [run_append]
    exact mark_le_mark_run _ after
  · exact ⟨numberOf_of_number? hk, add_of_contains (contains_of_number? hk)⟩
  · rintro before c after rfl
    rw [numberOf, hnew, Option.getD_none]
    exact Nat.lt_succ_of_le (numberUsed_le_mark_run t before after c)
  · rw [number?_add, if_pos rfl]
  · rw [number?_add, if_neg hm]
  · apply Option.ext
    intro m
    rw [← number?_eq_some_iff, ← number?_eq_some_iff, number?_add]
    split
    next h =>
      rw [h, hnew, Option.some.injEq]
      exact iff_of_false (Ne.symm hk) (Option.some_ne_none k).symm
    next => rfl

/-- The number 5 has no name any more, and yet the next number is 6. -/
example : (empty.run [.insert "A" 5, .insert "B" 5, .insert "B" 1]).numberOf "C" = 6 := by rfl

/-! ## Answers

The number loses its name before the name is asked for its number.  So an entry that is paired once
more is dropped first, and is not found any more. -/

/-- Pairing a name answers with its number, unless that is the number to pair it with. -/
theorem answer_eq_some_iff :
    (t.replace name number).1 = some k ↔ t.number? name = some k ∧ k ≠ number :=
  t.getElem?_released number name k

theorem answer_eq_number?_iff :
    (t.replace name number).1 = t.number? name ↔ t.number? name ≠ some number := by
  constructor
  · intro h hnumber
    rw [hnumber, answer_eq_some_iff] at h
    exact h.2 rfl
  · intro hnumber
    apply Option.ext
    intro k
    rw [answer_eq_some_iff, and_iff_left_of_imp]
    rintro hk rfl
    exact hnumber hk

/-- Pairing the sides of an entry changes no entry. -/
theorem number?_insert_of_entry (h : t.number? name = some number) (n : String) :
    (t.insert name number).number? n = t.number? n := by
  apply Option.ext
  intro k
  rw [number?_insert_iff_of_le (fun _ _ hk => hk) h, or_iff_right_of_imp]
  rintro ⟨rfl, rfl⟩
  exact h

/-- Whatever changes a table came about by, pairing a name answers with the number that the name
had before, except if it is the same number: then there is no answer, although the name had a
number and every entry stays as it is. -/
theorem answer_run (changes : List Change) (name : String) (number : Nat) :
    (∀ k, ((empty.run changes).replace name number).1 = some k ↔
      (empty.run changes).number? name = some k ∧ k ≠ number) ∧
    (((empty.run changes).replace name number).1 = (empty.run changes).number? name ↔
      (empty.run changes).number? name ≠ some number) ∧
    ((empty.run changes).number? name = some number →
      ((empty.run changes).replace name number).1 = none ∧
        ∀ n, ((empty.run changes).insert name number).number? n =
          (empty.run changes).number? n) := by
  refine ⟨fun k => answer_eq_some_iff, answer_eq_number?_iff, fun h => ⟨?_, ?_⟩⟩
  · refine Option.eq_none_iff_forall_ne_some.2 fun k hk => ?_
    obtain ⟨hold, hne⟩ := answer_eq_some_iff.1 hk
    rw [h, Option.some.injEq] at hold
    exact hne hold.symm
  · exact number?_insert_of_entry h

/-- A name that is paired with its own number had a number, but that is not the answer. -/
theorem answer_run_fails :
    ¬∀ (changes : List Change) (name : String) (number : Nat),
      ((empty.run changes).replace name number).1 = (empty.run changes).number? name := by
  intro h
  have hagain := h [.insert "A" 1] "A" 1
  have hbefore : (empty.run [.insert "A" 1]).number? "A" = some 1 := by rfl
  rw [answer_eq_number?_iff] at hagain
  exact hagain hbefore

/-! ## Listings -/

/-- Entries are listed in the order of their numbers. -/
theorem pairwise_toList (t : NameTable) : t.toList.Pairwise fun e e' => e.1 < e'.1 := by
  refine List.Pairwise.imp ?_ Std.TreeMap.ordered_keys_toList
  intro e e' h
  exact Nat.compare_eq_lt.1 h

theorem nodup_toList (t : NameTable) : t.toList.Nodup := by
  refine t.pairwise_toList.imp ?_
  rintro e e' hlt rfl
  exact Nat.lt_irrefl _ hlt

/-- No name is listed twice. -/
theorem nodup_map_snd_toList (t : NameTable) : (t.toList.map Prod.snd).Nodup := by
  refine List.Nodup.map_on ?_ t.nodup_toList
  rintro ⟨k, n⟩ he ⟨k', n'⟩ he' rfl
  rw [mem_toList_iff] at he he'
  rw [he, Option.some.injEq] at he'
  rw [he']

/-- The listing is determined by the entries. -/
theorem toList_eq_of_number? {t' : NameTable} (h : ∀ n, t'.number? n = t.number? n) :
    t'.toList = t.toList := by
  have hperm : t'.toList.Perm t.toList := by
    refine (List.perm_ext_iff_of_nodup t'.nodup_toList t.nodup_toList).2 ?_
    rintro ⟨k, n⟩
    rw [mem_toList_iff, mem_toList_iff, h]
  refine hperm.eq_of_pairwise ?_ t'.pairwise_toList t.pairwise_toList
  intro e e' _ _ hlt hlt'
  exact absurd hlt' (Nat.lt_asymm hlt)

/-- There are as many names as listed entries. -/
theorem size_eq_length_toList (t : NameTable) : t.size = t.toList.length := by
  have hperm : (t.toList.map Prod.snd).Perm t.numbers.keys := by
    refine (List.perm_ext_iff_of_nodup t.nodup_map_snd_toList Std.TreeMap.nodup_keys).2 ?_
    intro n
    rw [Std.TreeMap.mem_keys, Std.TreeMap.mem_iff_isSome_getElem?, Option.isSome_iff_exists,
      List.mem_map]
    constructor
    · rintro ⟨⟨k, n⟩, he, rfl⟩
      exact ⟨k, mem_toList_iff.1 he⟩
    · rintro ⟨k, hk⟩
      exact ⟨(k, n), mem_toList_iff.2 hk, rfl⟩
  rw [size, ← Std.TreeMap.length_keys, ← hperm.length_eq, List.length_map]

/-- Whatever changes a table came about by, its entries are the pairs that were made last for
both of their sides, and the two directions say the same about them.  All of them are listed,
each once and in the order of the numbers, and none is above the mark. -/
theorem entries_run_empty (changes : List Change) :
    (∀ n k, (empty.run changes).number? n = some k ↔ (empty.run changes).name? k = some n) ∧
    (∀ n k, (empty.run changes).number? n = some k ↔ IsLast (k, n) (empty.pairs changes)) ∧
    (empty.run changes).size = (empty.run changes).toList.length ∧
    (∀ n k, (k, n) ∈ (empty.run changes).toList ↔ (empty.run changes).number? n = some k) ∧
    (empty.run changes).toList.Pairwise (fun e e' => e.1 < e'.1) ∧
    (∀ n k, (empty.run changes).number? n = some k → k ≤ (empty.run changes).mark) := by
  refine ⟨fun n k => number?_eq_some_iff, fun n k => ?_, size_eq_length_toList _,
    fun n k => mem_toList_iff, pairwise_toList _, le_mark _⟩
  have hempty : empty.number? n ≠ some k := by
    rw [number?, empty, Std.TreeMap.getElem?_emptyc]
    intro h
    cases h
  rw [number?_run, or_iff_left fun h => hempty h.1]

/-- `A` loses its number to `B` and gets a new one, which leaves the number of `C` alone. -/
example : (empty.run [.insert "A" 1, .reserve 3, .insert "B" 1, .add "A", .insert "C" 2]).toList =
    [(1, "B"), (2, "C"), (4, "A")] := by rfl

end Presence.NameTable
