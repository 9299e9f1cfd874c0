import Presence.ClauseForm.InPlace
import Presence.Proofs.ClauseForm.Limits

/-!
# Outcomes of conversions in place

A conversion in place looks at the limit at every level, and it may have changed its table by
then.  It comes to the same as `ofFormula`, and of all its looks only the one at the whole formula,
before any change, can fail (`convertInPlace_outcome`).  So either the clauses are all there, or the
table is as it was.
-/

namespace Presence.ClauseForm

open Formula

/-! ## Computations in place -/

namespace InPlace

variable {α β : Type} {x : InPlace α} {g : α → InPlace β} {a : α} {s s' : Supply}

/-- A second step goes on with what the first one left, unless that was a fault. -/
theorem outcome_bind (x : InPlace α) (g : α → InPlace β) (s : Supply) :
    (x >>= g).outcome s =
      match x.outcome s with
      | (.ok a, s') => (g a).outcome s'
      | (.error cause, s') => (.error cause, s') := by
  unfold outcome ExceptT.run StateT.run
  simp only [bind, ExceptT.bind, ExceptT.mk, StateT.bind]
  rcases x s with ⟨_ | _, s'⟩ <;> rfl

theorem outcome_bind_of_ok (h : x.outcome s = (.ok a, s')) :
    (x >>= g).outcome s = (g a).outcome s' := by
  rw [outcome_bind, h]

variable {strategy : Strategy} {maxDepth levels : Nat} {f : Formula} {form : ClauseForm}

/-- Within as many levels as the formula is high, its truth values are replaced. -/
theorem outcome_withoutConstants (hheight : f.height ≤ levels) (s : Supply) :
    (withoutConstants maxDepth levels f).outcome s = (.ok f.withoutConstants, s) := by
  induction levels generalizing f with
  | zero => exact absurd hheight (Nat.not_le_of_lt f.height_pos)
  | succ levels ih =>
      cases f with
      | constant value => cases value <;> rfl
      | atom name => rfl
      | negation f =>
          rw [withoutConstants, outcome_bind_of_ok (ih (Nat.le_of_succ_le_succ hheight))]
          rfl
      | conjunction l r | disjunction l r =>
          simp only [height] at hheight
          rw [withoutConstants, outcome_bind_of_ok (ih (f := l) (by omega)),
            outcome_bind_of_ok (ih (f := r) (by omega))]
          rfl

/-- The clauses are those of the conversion that returns its supply, and so is the supply. -/
theorem outcome_clauses (h : clausesOf strategy maxDepth levels s f = .ok form) :
    (clauses strategy maxDepth levels f).outcome s = (.ok form.clauses, form.supply) := by
  -- A double negation uses up two levels.
  induction levels using Nat.strongRecOn generalizing s f form with
  | ind levels ih =>
  cases levels with
  | zero => cases h
  | succ levels =>
      rw [clausesOf] at h
      rw [clauses]
      cases hf : f.outermost with
      | literal =>
          simp only [hf, Except.ok.injEq] at h
          subst h
          rfl
      | truth value => simp [hf] at h
      | doubleNegation g =>
          simp only [hf] at h
          cases levels with
          | zero => cases h
          | succ levels => exact ih levels (by omega) h
      | both l r =>
          simp only [hf] at h
          obtain ⟨left, hl, h⟩ := bind_eq_ok_iff.1 h
          obtain ⟨right, hr, h⟩ := bind_eq_ok_iff.1 h
          cases h
          simp only
          rw [outcome_bind_of_ok (ih levels (by omega) hl),
            outcome_bind_of_ok (ih levels (by omega) hr)]
          rfl
      | either l r =>
          simp only [hf] at h
          simp only
          split at h
          next hreplaced =>
            obtain ⟨left, hl, h⟩ := bind_eq_ok_iff.1 h
            obtain ⟨right, hr, h⟩ := bind_eq_ok_iff.1 h
            cases h
            have hfresh : fresh.outcome s = (.ok s.fresh.1, s.fresh.2) := rfl
            rw [if_pos hreplaced, outcome_bind_of_ok hfresh,
              outcome_bind_of_ok (ih levels (by omega) hl),
              outcome_bind_of_ok (ih levels (by omega) hr)]
            rfl
          next hjoined =>
            obtain ⟨left, hl, h⟩ := bind_eq_ok_iff.1 h
            obtain ⟨right, hr, h⟩ := bind_eq_ok_iff.1 h
            cases h
            rw [if_neg hjoined, outcome_bind_of_ok (ih levels (by omega) hl),
              outcome_bind_of_ok (ih levels (by omega) hr)]
            rfl

/-- Within the limit the conversion has the clauses and leaves the supply of `ofFormula`. -/
theorem outcome_ofFormula {table : Option NameTable}
    (h : ClauseForm.ofFormula strategy maxDepth table f = .ok form) :
    (ofFormula strategy maxDepth f).outcome (startSupply table f) =
      (.ok form.clauses, form.supply) := by
  rw [ClauseForm.ofFormula] at h
  rw [ofFormula]
  split at h
  next => cases h
  next hdepth =>
    rw [if_neg hdepth]
    cases hconstants : f.containsConstants with
    | false =>
        simp only [hconstants, Bool.false_eq_true, ↓reduceIte] at h ⊢
        exact outcome_clauses h
    | true =>
        simp only [hconstants, ↓reduceIte] at h ⊢
        obtain ⟨inner, hinner, h⟩ := bind_eq_ok_iff.1 h
        cases h
        have hregister : registerPseudo.outcome (startSupply table f) =
            (.ok (), pseudoSupply table f) := rfl
        have hheight : f.height ≤ maxDepth + 1 := by
          rw [← depth_eq_height]
          exact Nat.le_of_not_lt hdepth
        have hclauses := outcome_clauses (s := pseudoSupply table f) hinner
        rw [outcome_bind_of_ok hregister, outcome_bind_of_ok (outcome_withoutConstants hheight _),
          outcome_bind_of_ok hclauses]
        rfl

end InPlace

/-! ## Outcomes -/

variable {strategy : Strategy} {maxDepth : Nat} {table : Option NameTable} {f : Formula}
  {form : ClauseForm}

theorem convertInPlace_of_ok (h : ofFormula strategy maxDepth table f = .ok form) :
    convertInPlace strategy maxDepth table f = (.ok form.clauses, form.supply.table) := by
  rw [convertInPlace, InPlace.outcome_ofFormula h]

/-- Before it looks at the limit the conversion has changed nothing. -/
theorem convertInPlace_of_lt_depth (hdepth : maxDepth + 1 < f.depth) :
    convertInPlace strategy maxDepth table f = (.error (.tooDeep maxDepth), table) := by
  rw [convertInPlace, InPlace.ofFormula, if_pos hdepth]
  rfl

theorem ofFormula_clauses_ne_nil (h : ofFormula strategy maxDepth table f = .ok form) :
    form.clauses ≠ [] := by
  rcases ofFormula_cases h with ⟨_, names, hconverts⟩ | ⟨_, names, inner, _, rfl⟩
  · exact hconverts.clauses_ne_nil
  · exact List.cons_ne_nil _ _

/-- The clauses that force the atoms for truth values come first. -/
theorem ofFormula_pseudo_prefix (h : ofFormula strategy maxDepth table f = .ok form)
    (hconstants : f.containsConstants = true) :
    [atom pseudoTrue, negation (atom pseudoFalse)] <+: form.clauses := by
  rcases ofFormula_cases h with ⟨hnone, _⟩ | ⟨_, names, inner, _, rfl⟩
  · rw [hnone] at hconstants
    cases hconstants
  · exact ⟨inner.clauses, rfl⟩

/-- A conversion fails exactly for a formula deeper than the limit, with that fault, and then it
leaves the table as it was.  Otherwise it has clauses, and those for truth values come first. -/
theorem convertInPlace_outcome (strategy : Strategy) (maxDepth : Nat) (table : Option NameTable)
    (f : Formula) :
    (convertInPlace strategy maxDepth table f).1 =
      (ofFormula strategy maxDepth table f).map ClauseForm.clauses ∧
    (∀ cause, (convertInPlace strategy maxDepth table f).1 = .error cause ↔
      maxDepth + 1 < f.depth ∧ cause = .tooDeep maxDepth) ∧
    (maxDepth + 1 < f.depth → (convertInPlace strategy maxDepth table f).2 = table) ∧
    (f.depth ≤ maxDepth + 1 → ∃ form, ofFormula strategy maxDepth table f = .ok form ∧
      convertInPlace strategy maxDepth table f = (.ok form.clauses, form.supply.table) ∧
      form.clauses ≠ [] ∧ (∀ c ∈ form.clauses, c.isClause = true) ∧
      (f.containsConstants = true →
        [atom pseudoTrue, negation (atom pseudoFalse)] <+: form.clauses)) := by
  rcases Nat.lt_or_ge (maxDepth + 1) f.depth with hdepth | hdepth
  · have herror : ofFormula strategy maxDepth table f = .error (.tooDeep maxDepth) :=
      ofFormula_eq_error_iff.2 ⟨hdepth, rfl⟩
    rw [convertInPlace_of_lt_depth hdepth, herror]
    refine ⟨rfl, fun cause => ?_, fun _ => rfl, fun hle => absurd hdepth (Nat.not_lt_of_le hle)⟩
    rw [and_iff_right hdepth, Except.error.injEq, eq_comm]
  · obtain ⟨form, hform⟩ := exists_ofFormula strategy table hdepth
    rw [convertInPlace_of_ok hform, hform]
    refine ⟨rfl, fun cause => ?_, fun hlt => absurd hlt (Nat.not_lt_of_le hdepth), fun _ =>
      ⟨form, rfl, rfl, ofFormula_clauses_ne_nil hform, ofFormula_isClause hform,
        ofFormula_pseudo_prefix hform⟩⟩
    exact iff_of_false nofun fun h => absurd h.1 (Nat.not_lt_of_le hdepth)

end Presence.ClauseForm
