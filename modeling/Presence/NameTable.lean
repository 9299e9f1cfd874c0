import Std.Data.TreeMap

/-!
# Name tables

A *name table* pairs names with variable numbers, at most one number to a name
and one name to a number.  It also keeps a *mark*, the largest number that is
in use with or without a name.  A new name gets the number after the mark, so
it never shares a number with anything in use before.

Pairing a name with a number drops every earlier pair of either of the two.
The mark never falls, even if the pair that raised it is dropped.

That the two directions are inverse to each other and stay at or below the mark
is part of the type.  So every table there is has these properties, and each
operation shows that it keeps them.
-/

namespace Presence

/-- Names of variable numbers, in both directions. -/
structure NameTable where
  /-- The number of each name. -/
  numbers : Std.TreeMap String Nat := ∅
  /-- The name of each named number. -/
  names : Std.TreeMap Nat String := ∅
  /-- The largest number in use. -/
  mark : Nat := 0
  /-- A name has a number exactly if the number has the name. -/
  inverse : ∀ (name : String) (number : Nat),
    numbers[name]? = some number ↔ names[number]? = some name := by
    intro name number
    rw [Std.TreeMap.getElem?_emptyc, Std.TreeMap.getElem?_emptyc]
    exact ⟨nofun, nofun⟩
  /-- No named number is above the mark. -/
  le_mark : ∀ (name : String) (number : Nat),
    numbers[name]? = some number → number ≤ mark := by
    intro name number h
    rw [Std.TreeMap.getElem?_emptyc] at h
    cases h

namespace NameTable

/-- A table without names. -/
def empty : NameTable where

/-- The number of a name. -/
def number? (t : NameTable) (name : String) : Option Nat := t.numbers[name]?

/-- The name of a number. -/
def name? (t : NameTable) (number : Nat) : Option String := t.names[number]?

/-- The name has a number. -/
def contains (t : NameTable) (name : String) : Bool := (t.number? name).isSome

/-- The number of named numbers. -/
def size (t : NameTable) : Nat := t.numbers.size

/-- The named numbers with their names, in the order of the numbers. -/
def toList (t : NameTable) : List (Nat × String) := t.names.toList

/-- Marks all numbers up to a number as used. -/
def reserve (t : NameTable) (number : Nat) : NameTable :=
  { t with
    mark := max t.mark number
    le_mark := fun name k h => Nat.le_trans (t.le_mark name k h) (Nat.le_max_left ..) }

/-! ## Pairing -/

/-- The numbers of names once the number has no name any more. -/
def released (t : NameTable) (number : Nat) : Std.TreeMap String Nat :=
  match t.name? number with
  | some name => t.numbers.erase name
  | none => t.numbers

/-- The names of numbers once neither the number has a name nor the name a number. -/
def freed (t : NameTable) (name : String) (number : Nat) : Std.TreeMap Nat String :=
  match (t.released number)[name]? with
  | some old => (t.names.erase number).erase old
  | none => t.names.erase number

/-- Only the name of the number loses its number. -/
theorem getElem?_released (t : NameTable) (number : Nat) (name : String) (k : Nat) :
    (t.released number)[name]? = some k ↔ t.numbers[name]? = some k ∧ k ≠ number := by
  unfold released name?
  cases hn : t.names[number]? with
  | none =>
      refine ⟨fun h => ⟨h, ?_⟩, fun h => h.1⟩
      rintro rfl
      rw [(t.inverse name k).1 h] at hn
      cases hn
  | some old =>
      have hold := (t.inverse old number).2 hn
      simp only [Std.TreeMap.getElem?_erase, Std.LawfulEqCmp.compare_eq_iff_eq]
      by_cases hname : old = name
      · subst hname
        rw [if_pos rfl, hold]
        simp [eq_comm]
      · rw [if_neg hname]
        refine ⟨fun h => ⟨h, ?_⟩, fun h => h.1⟩
        rintro rfl
        rw [(t.inverse name k).1 h, Option.some.injEq] at hn
        exact hname hn.symm

/-- Only the number itself and the earlier number of the name lose their names. -/
theorem getElem?_freed (t : NameTable) (name : String) (number k : Nat) (n : String) :
    (t.freed name number)[k]? = some n ↔ t.names[k]? = some n ∧ k ≠ number ∧ n ≠ name := by
  unfold freed
  cases hr : (t.released number)[name]? with
  | none =>
      simp only [Std.TreeMap.getElem?_erase, Std.LawfulEqCmp.compare_eq_iff_eq]
      by_cases hk : number = k
      · simp [hk]
      · rw [if_neg hk]
        refine ⟨fun h => ⟨h, Ne.symm hk, ?_⟩, fun h => h.1⟩
        rintro rfl
        have := (t.getElem?_released number n k).2 ⟨(t.inverse n k).2 h, Ne.symm hk⟩
        rw [hr] at this
        cases this
  | some old =>
      obtain ⟨hold, hne⟩ := (t.getElem?_released number name old).1 hr
      simp only [Std.TreeMap.getElem?_erase, Std.LawfulEqCmp.compare_eq_iff_eq]
      by_cases hk : number = k
      · simp [hk]
      · by_cases ho : old = k
        · subst ho
          have hname := (t.inverse name old).1 hold
          rw [if_pos rfl]
          refine ⟨fun h => by simp at h, fun ⟨h, _, hn⟩ => ?_⟩
          rw [hname, Option.some.injEq] at h
          exact absurd h.symm hn
        · rw [if_neg ho, if_neg hk]
          refine ⟨fun h => ⟨h, Ne.symm hk, ?_⟩, fun h => h.1⟩
          rintro rfl
          have := (t.inverse n k).2 h
          rw [hold, Option.some.injEq] at this
          exact ho this

/-- Pairs a name with a number.  The first component is the number that the name
has after the number lost its earlier name. -/
def replace (t : NameTable) (name : String) (number : Nat) : Option Nat × NameTable :=
  ((t.released number)[name]?,
    { numbers := (t.released number).insert name number
      names := (t.freed name number).insert number name
      mark := max t.mark number
      inverse := by
        intro n k
        simp only [Std.TreeMap.getElem?_insert, Std.LawfulEqCmp.compare_eq_iff_eq]
        by_cases hn : name = n <;> by_cases hk : number = k
        · simp [hn, hk]
        · subst hn
          rw [if_pos rfl, if_neg hk, getElem?_freed]
          simp [hk]
        · subst hk
          rw [if_neg hn, if_pos rfl, getElem?_released]
          simp [hn]
        · rw [if_neg hn, if_neg hk, getElem?_released, getElem?_freed, t.inverse n k]
          simp [Ne.symm hn, Ne.symm hk]
      le_mark := by
        intro n k h
        simp only [Std.TreeMap.getElem?_insert, Std.LawfulEqCmp.compare_eq_iff_eq] at h
        by_cases hn : name = n
        · rw [if_pos hn, Option.some.injEq] at h
          subst h
          exact Nat.le_max_right ..
        · rw [if_neg hn, getElem?_released] at h
          exact Nat.le_trans (t.le_mark n k h.1) (Nat.le_max_left ..) })

/-- Pairs a name with a number and drops all earlier pairs of either. -/
def insert (t : NameTable) (name : String) (number : Nat) : NameTable := (t.replace name number).2

/-- Gives a name the number after the mark unless it has a number. -/
def add (t : NameTable) (name : String) : NameTable :=
  if t.contains name then t else t.insert name (t.mark + 1)

/-- The number that a name has once it is added. -/
def numberOf (t : NameTable) (name : String) : Nat := (t.number? name).getD (t.mark + 1)

end NameTable

/-- A name without a number. -/
structure UnknownName where
  /-- The name. -/
  name : String
  deriving DecidableEq, Repr

/-- The wording of the fault that a name has no number. -/
def UnknownName.message (u : UnknownName) : String :=
  "Variable not found in DIMACS model: " ++ u.name

/-- The number of a name, or the fault that it has none. -/
def NameTable.lookup (t : NameTable) (name : String) : Except UnknownName Nat :=
  match t.number? name with
  | some number => .ok number
  | none => .error ⟨name⟩

end Presence
