import Mathlib.Algebra.Order.BigOperators.Group.List
import Mathlib.Algebra.Order.Ring.Nat
import Presence.Proofs.ClauseForm.Conversion

/-!
# Growth of clause forms

With the replacing strategy a formula of `n` leaves has at most `n` clauses of at most `n`
literals each, apart from those for truth values, and needs fewer than `n` new names
(`ofFormula_growth`).

Clauses are multiplied only where a side is no compound formula, and such a side has a single
clause (`Converts.length_clauses_of_not_isCompound`).  So the numbers of clauses add up, and they
stay below the numbers of leaves (`Bounded`).
-/

namespace Presence

namespace Formula

variable {f l r : Formula}

theorem leafCount_of_both (h : f.outermost = .both l r) :
    f.leafCount = l.leafCount + r.leafCount := by
  rcases outermost_both h with rfl | ⟨l', r', rfl, rfl, rfl⟩ <;> simp

theorem leafCount_of_either (h : f.outermost = .either l r) :
    f.leafCount = l.leafCount + r.leafCount := by
  rcases outermost_either h with rfl | ⟨l', r', rfl, rfl, rfl⟩ <;> simp

theorem isCompound_of_both (h : f.outermost = .both l r) : f.isCompound = true := by
  rcases outermost_both h with rfl | ⟨l', r', rfl, rfl, rfl⟩ <;> rfl

theorem isCompound_of_either (h : f.outermost = .either l r) : f.isCompound = true := by
  rcases outermost_either h with rfl | ⟨l', r', rfl, rfl, rfl⟩ <;> rfl

theorem leafCount_withoutConstants (f : Formula) : f.withoutConstants.leafCount = f.leafCount := by
  induction f with
  | constant b => cases b <;> simp [withoutConstants]
  | atom name => rfl
  | negation f ih => simp [withoutConstants, ih]
  | conjunction l r ihl ihr | disjunction l r ihl ihr => simp [withoutConstants, ihl, ihr]

end Formula

namespace ClauseForm

open Formula

variable {strategy : Strategy} {maxDepth : Nat} {table : Option NameTable} {s : Supply}
  {f : Formula} {names : List String} {form : ClauseForm} {left right : List Formula} {m n : Nat}

/-! ## Joined clauses -/

theorem length_distribute (left right : List Formula) :
    (distribute left right).length = left.length * right.length := by
  simp [distribute, List.length_flatMap]

theorem leafCount_of_mem_distribute (hl : ∀ c ∈ left, c.leafCount ≤ m)
    (hr : ∀ c ∈ right, c.leafCount ≤ n) : ∀ c ∈ distribute left right, c.leafCount ≤ m + n := by
  intro c hc
  obtain ⟨l, hmem, r, hmem', rfl⟩ := mem_distribute.1 hc
  rw [leafCount_disjunction]
  exact Nat.add_le_add (hl l hmem) (hr r hmem')

/-! ## Bounds -/

/-- The bounds on clauses, literals and new names for a formula of `n` leaves. -/
structure Bounded (n : Nat) (names : List String) (clauses : List Formula) : Prop where
  length_clauses : clauses.length ≤ n
  leafCount : ∀ c ∈ clauses, c.leafCount ≤ n
  length_names : names.length < n

/-- A formula without a binary node has one clause. -/
theorem Converts.length_clauses_of_not_isCompound (h : Converts strategy s f names form)
    (hsimple : f.isCompound = false) : form.clauses.length = 1 := by
  induction h with
  | literal _ => rfl
  | doubleNegation shape _ ih =>
      rw [outermost_doubleNegation shape] at hsimple
      exact ih hsimple
  | both shape =>
      rw [isCompound_of_both shape] at hsimple
      cases hsimple
  | replaced shape | joined shape =>
      rw [isCompound_of_either shape] at hsimple
      cases hsimple

theorem Converts.bounded (h : Converts .replacing s f names form) :
    Bounded f.leafCount names form.clauses := by
  induction h with
  | @literal s f shape =>
      exact ⟨f.leafCount_pos, List.forall_mem_singleton.2 (Nat.le_refl _), f.leafCount_pos⟩
  | doubleNegation shape _ ih =>
      rw [outermost_doubleNegation shape, leafCount_negation, leafCount_negation]
      exact ih
  | both shape _ _ ihl ihr =>
      rw [leafCount_of_both shape]
      refine ⟨?_, ?_, ?_⟩
      · rw [List.length_append]
        exact Nat.add_le_add ihl.length_clauses ihr.length_clauses
      · refine List.forall_mem_append.2 ⟨fun c hc => ?_, fun c hc => ?_⟩
        · exact Nat.le_add_right_of_le (ihl.leafCount c hc)
        · exact Nat.le_add_left_of_le (ihr.leafCount c hc)
      · rw [List.length_append]
        exact Nat.add_lt_add ihl.length_names ihr.length_names
  | @replaced s f l r names more left right shape _ _ _ ihl ihr =>
      have hchoice : ∀ c ∈ [negation (atom s.fresh.1)], c.leafCount ≤ 1 := by simp
      have hother : ∀ c ∈ [atom s.fresh.1], c.leafCount ≤ 1 := by simp
      have hlpos := l.leafCount_pos
      have hrpos := r.leafCount_pos
      rw [leafCount_of_either shape]
      refine ⟨?_, ?_, ?_⟩
      · rw [List.length_append, length_distribute, length_distribute, List.length_singleton,
          List.length_singleton, Nat.one_mul, Nat.one_mul]
        exact Nat.add_le_add ihl.length_clauses ihr.length_clauses
      -- The new atom takes the place of a leaf of the other side.
      · refine List.forall_mem_append.2 ⟨fun c hc => ?_, fun c hc => ?_⟩
        · have hle := leafCount_of_mem_distribute hchoice ihl.leafCount c hc
          omega
        · have hle := leafCount_of_mem_distribute hother ihr.leafCount c hc
          omega
      · have hl := ihl.length_names
        have hr := ihr.length_names
        rw [List.length_cons, List.length_append]
        omega
  | @joined s f l r names more left right shape notReplaced first second ihl ihr =>
      have hsimple : l.isCompound = false ∨ r.isCompound = false := by
        rw [← Bool.not_eq_true, ← Bool.not_eq_true, ← not_and_or]
        exact fun h => notReplaced ⟨rfl, h⟩
      have hl := ihl.length_clauses
      have hr := ihr.length_clauses
      rw [leafCount_of_either shape]
      refine ⟨?_, leafCount_of_mem_distribute ihl.leafCount ihr.leafCount, ?_⟩
      · rw [length_distribute]
        rcases hsimple with hsimple | hsimple
        · rw [first.length_clauses_of_not_isCompound hsimple, Nat.one_mul]
          omega
        · rw [second.length_clauses_of_not_isCompound hsimple, Nat.mul_one]
          omega
      · rw [List.length_append]
        exact Nat.add_lt_add ihl.length_names ihr.length_names

theorem Bounded.sum_leafCount_le {clauses : List Formula} (h : Bounded n names clauses) :
    (clauses.map Formula.leafCount).sum ≤ n * n := by
  calc (clauses.map Formula.leafCount).sum
      ≤ (clauses.map Formula.leafCount).length • n :=
        List.sum_le_card_nsmul _ _ (List.forall_mem_map.2 h.leafCount)
    _ = clauses.length * n := by rw [List.length_map, Nat.nsmul_eq_mul]
    _ ≤ n * n := Nat.mul_le_mul_right n h.length_clauses

/-! ## Whole formulas -/

/-- The clauses that force the atoms for truth values, if the formula has any. -/
def pseudoClauses (f : Formula) : List Formula :=
  if f.containsConstants then [atom pseudoTrue, negation (atom pseudoFalse)] else []

/-- After the clauses for truth values there are at most as many clauses as the formula has
leaves, each with at most as many literals, and there are fewer temporaries.  So there are at most
quadratically many literals. -/
theorem ofFormula_growth (h : ofFormula .replacing maxDepth table f = .ok form) :
    ∃ clauses temporaries, form.clauses = pseudoClauses f ++ clauses ∧
      form.supply.issued = temporaries ++ pseudoNames f ∧
      clauses.length ≤ f.leafCount ∧ (∀ c ∈ clauses, c.leafCount ≤ f.leafCount) ∧
      temporaries.length < f.leafCount ∧
      (form.clauses.map leafCount).sum ≤ f.leafCount * f.leafCount + 2 := by
  rcases ofFormula_cases h with ⟨hconstants, names, hconverts⟩ |
    ⟨hconstants, names, inner, hconverts, rfl⟩
  · have hbounded := hconverts.bounded
    have hissued := hconverts.draws.issued
    rw [startSupply, List.append_nil] at hissued
    refine ⟨form.clauses, names.reverse, ?_, ?_, hbounded.length_clauses, hbounded.leafCount, ?_,
      Nat.le_add_right_of_le hbounded.sum_leafCount_le⟩
    · simp [pseudoClauses, hconstants]
    · simp [pseudoNames, hconstants, hissued]
    · rw [List.length_reverse]
      exact hbounded.length_names
  · have hbounded := hconverts.bounded
    rw [leafCount_withoutConstants] at hbounded
    have hissued : inner.supply.issued = names.reverse ++ [pseudoFalse, pseudoTrue] :=
      hconverts.draws.issued
    refine ⟨inner.clauses, names.reverse, ?_, ?_, hbounded.length_clauses, hbounded.leafCount, ?_,
      ?_⟩
    · simp [pseudoClauses, hconstants]
    · simp [pseudoNames, hconstants, hissued]
    · rw [List.length_reverse]
      exact hbounded.length_names
    · have hsum := hbounded.sum_leafCount_le
      simp only [List.map_cons, List.sum_cons, leafCount_negation, leafCount_atom]
      omega

/-- The formula `A && B || !(temp_0 || 1)`, which has both a truth value and the name of a
temporary. -/
def growthExample : Formula :=
  disjunction (conjunction (atom "A") (atom "B"))
    (negation (disjunction (atom "temp_0") (constant true)))

theorem ofFormula_growth_example :
    ∃ form, ofFormula .replacing 3 none growthExample = .ok form ∧ form.clauses.length = 6 ∧
      ∃ clauses temporaries, form.clauses = pseudoClauses growthExample ++ clauses ∧
        form.supply.issued = temporaries ++ pseudoNames growthExample ∧ clauses.length ≤ 4 ∧
        (∀ c ∈ clauses, c.leafCount ≤ 4) ∧ temporaries.length < 4 ∧
        (form.clauses.map leafCount).sum ≤ 18 := by
  have hconvert : (ofFormula .replacing 3 none growthExample).toOption.map (·.clauses.length) =
      some 6 := by decide +kernel
  obtain ⟨form, hform, hlength⟩ := exists_of_map_toOption hconvert
  have hleaves : growthExample.leafCount = 4 := by simp [growthExample]
  have hgrowth := ofFormula_growth hform
  rw [hleaves] at hgrowth
  exact ⟨form, hform, hlength, hgrowth⟩

end ClauseForm

end Presence
