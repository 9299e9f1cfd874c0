import Presence.ClauseForm.Supply
import Presence.Proofs.NameTable
import Std.Data.String.ToNat
import Mathlib.Data.List.Basic
import Mathlib.Data.List.Nodup
import Mathlib.Data.List.Perm.Subperm

/-!
# Freshness of supplied names

A new name is not in use (`isUsed_fresh`).  The names `temp_k` are pairwise
different, and a supply tries one more of them than there are names in use, so
one of its tries succeeds.

What happens to a supply over several requests is a `Draws`: the names drawn are
pairwise different, none of them was in use, and afterwards exactly they are in
use beside what was.
-/

namespace Presence.Supply

variable {s s' s'' : Supply} {name n : String} {names more : List String}

/-! ## Names in use -/

/-- The names in use, those of the table last. -/
def usedNames (s : Supply) : List String :=
  s.taken.toList ++
    match s.table with
    | some table => table.numbers.keys
    | none => []

theorem length_usedNames (s : Supply) : s.usedNames.length = s.usedCount := by
  rw [usedNames, usedCount, List.length_append, Std.TreeSet.length_toList]
  cases s.table with
  | none => rfl
  | some table => exact congrArg (s.taken.size + ·) Std.TreeMap.length_keys

theorem isUsed_iff :
    s.isUsed n = true ↔
      s.taken.contains n = true ∨ ∃ t, s.table = some t ∧ t.contains n = true := by
  rw [isUsed, Bool.or_eq_true]
  cases s.table with
  | none => simp
  | some t => simp

theorem mem_usedNames : n ∈ s.usedNames ↔ s.isUsed n = true := by
  rw [usedNames, isUsed_iff, List.mem_append, Std.TreeSet.mem_toList,
    Std.TreeSet.contains_iff_mem]
  cases s.table with
  | none => simp
  | some table =>
      rw [Std.TreeMap.mem_keys, Std.TreeMap.mem_iff_isSome_getElem?]
      simp only [Option.some.injEq, exists_eq_left', NameTable.contains, NameTable.number?]

theorem isUsed_register (s : Supply) (name n : String) :
    (s.register name).isUsed n = true ↔ n = name ∨ s.isUsed n = true := by
  have htaken : (s.register name).taken.contains n = true ↔
      n = name ∨ s.taken.contains n = true := by
    rw [register, Std.TreeSet.contains_insert, Bool.or_eq_true, beq_iff_eq,
      Std.LawfulEqCmp.compare_eq_iff_eq, eq_comm]
  have htable : (∃ t, (s.register name).table = some t ∧ t.contains n = true) ↔
      ∃ t, s.table = some t ∧ (n = name ∨ t.contains n = true) := by
    simp [register, NameTable.contains_add]
  rw [isUsed_iff, isUsed_iff, htaken, htable]
  constructor
  · rintro ((h | h) | ⟨t, ht, h | h⟩)
    · exact Or.inl h
    · exact Or.inr (Or.inl h)
    · exact Or.inl h
    · exact Or.inr (Or.inr ⟨t, ht, h⟩)
  · rintro (h | h | ⟨t, ht, h⟩)
    · exact Or.inl (Or.inl h)
    · exact Or.inl (Or.inr h)
    · exact Or.inr ⟨t, ht, Or.inr h⟩

/-! ## Temporaries -/

theorem temporary_injective : Function.Injective temporary := by
  intro j k h
  have h : j.repr = k.repr := String.append_right_inj _ |>.1 h
  exact Nat.repr_inj.1 h

/-- All numbers passed over are in use.  If fewer than all tries were made then
the number found is not. -/
theorem firstUnused_spec (used : Nat → Bool) (tries k : Nat) :
    k ≤ firstUnused used tries k ∧ firstUnused used tries k ≤ k + tries ∧
      (∀ j, k ≤ j → j < firstUnused used tries k → used j = true) ∧
      (firstUnused used tries k < k + tries → used (firstUnused used tries k) = false) := by
  induction tries generalizing k with
  | zero =>
      rw [firstUnused]
      exact ⟨Nat.le_refl _, Nat.le_refl _, fun j h h' => by omega, fun h => by omega⟩
  | succ tries ih =>
      rw [firstUnused]
      cases hk : used k with
      | false =>
          rw [if_neg Bool.false_ne_true]
          exact ⟨Nat.le_refl _, by omega, fun j h h' => by omega, fun _ => hk⟩
      | true =>
          rw [if_pos rfl]
          obtain ⟨hle, hge, hpassed, hfound⟩ := ih (k + 1)
          refine ⟨by omega, by omega, fun j hj hlt => ?_, fun h => hfound (by omega)⟩
          rcases Nat.eq_or_lt_of_le hj with rfl | hj
          · exact hk
          · exact hpassed j hj hlt

/-- There are not more temporaries in use than names. -/
theorem le_usedCount_of_isUsed {k count : Nat}
    (h : ∀ j, k ≤ j → j < k + count → s.isUsed (temporary j) = true) :
    count ≤ s.usedCount := by
  have hnodup : ((List.range' k count).map temporary).Nodup :=
    List.Nodup.map temporary_injective List.nodup_range'
  have hsubset : (List.range' k count).map temporary ⊆ s.usedNames := by
    intro n hn
    obtain ⟨j, hj, rfl⟩ := List.mem_map.1 hn
    rw [List.mem_range'_1] at hj
    exact mem_usedNames.2 (h j hj.1 hj.2)
  have hlength := hnodup.length_le_of_subset hsubset
  rwa [List.length_map, List.length_range', length_usedNames] at hlength

/-- The next temporary is not in use. -/
theorem isUsed_unusedNumber (s : Supply) : s.isUsed (temporary s.unusedNumber) = false := by
  obtain ⟨hle, hge, hpassed, hfound⟩ :=
    firstUnused_spec (fun k => s.isUsed (temporary k)) s.usedCount s.next
  rw [← unusedNumber] at hle hge hpassed hfound
  by_cases hlt : s.unusedNumber < s.next + s.usedCount
  · exact hfound hlt
  -- All tries were in vain, so one more temporary in use would be one too many.
  · by_contra hused
    have : s.usedCount + 1 ≤ s.usedCount := by
      refine le_usedCount_of_isUsed (k := s.next) fun j hj hlt' => ?_
      by_cases hj' : j < s.unusedNumber
      · exact hpassed j hj hj'
      · rw [show j = s.unusedNumber by omega]
        exact Bool.not_eq_false _ |>.mp hused
    omega

/-- A new name is not in use. -/
theorem isUsed_fresh (s : Supply) : s.isUsed s.fresh.1 = false := isUsed_unusedNumber s

/-! ## Draws -/

/-- The names are drawn from the first supply, in order, which leaves the second. -/
structure Draws (s : Supply) (names : List String) (s' : Supply) : Prop where
  /-- The drawn names are noted as handed out. -/
  issued : s'.issued = names.reverse ++ s.issued
  /-- They are added to the table. -/
  table : s'.table = s.table.map fun t => names.foldl NameTable.add t
  /-- Afterwards they are in use, and of the others those that were. -/
  used : ∀ n, s'.isUsed n = true ↔ n ∈ names ∨ s.isUsed n = true
  /-- None of them was in use. -/
  new : ∀ n ∈ names, s.isUsed n = false
  /-- They are pairwise different. -/
  nodup : names.Nodup

namespace Draws

theorem refl (s : Supply) : Draws s [] s where
  issued := rfl
  table := by simp
  used := by simp
  new := by simp
  nodup := List.nodup_nil

theorem fresh (s : Supply) : Draws s [s.fresh.1] s.fresh.2 where
  issued := rfl
  table := rfl
  used := by
    intro n
    rw [List.mem_singleton]
    exact isUsed_register s s.fresh.1 n
  new := by
    intro n hn
    rw [List.mem_singleton.1 hn]
    exact isUsed_fresh s
  nodup := List.nodup_singleton _

/-- What was in use cannot be drawn. -/
theorem not_mem (h : Draws s names s') (hn : s.isUsed n = true) : n ∉ names := by
  intro hmem
  rw [h.new n hmem] at hn
  cases hn

theorem isUsed (h : Draws s names s') (hn : s.isUsed n = true) : s'.isUsed n = true :=
  (h.used n).2 (Or.inr hn)

theorem isUsed_of_mem (h : Draws s names s') (hn : n ∈ names) : s'.isUsed n = true :=
  (h.used n).2 (Or.inl hn)

theorem trans (h : Draws s names s') (h' : Draws s' more s'') :
    Draws s (names ++ more) s'' where
  issued := by rw [h'.issued, h.issued, List.reverse_append, List.append_assoc]
  table := by
    rw [h'.table, h.table, Option.map_map]
    congr 1
    funext t
    rw [List.foldl_append, Function.comp_apply]
  used := by
    intro n
    rw [h'.used, h.used, List.mem_append, or_assoc, or_left_comm]
  new := by
    intro n hn
    rcases List.mem_append.1 hn with hn | hn
    · exact h.new n hn
    · by_contra hused
      exact h'.not_mem (h.isUsed (Bool.not_eq_false _ |>.mp hused)) hn
  nodup := by
    refine List.nodup_append.2 ⟨h.nodup, h'.nodup, fun n hn m hm => ?_⟩
    rintro rfl
    exact h'.not_mem (h.isUsed_of_mem hn) hm

end Draws

end Presence.Supply
