import Presence.Proofs.ClauseForm.Conversion

/-!
# Which formulas have a clause form

Within as many levels as it is high, a formula without truth values has a clause form
(`exists_clausesOf`).  Pushing a negation below a binary node does not make the operands
deeper than the limit allows, because the node and its negation are two levels and the
operands with their negations are taken one level further down.

So the only formulas without a clause form are those deeper than the limit, whatever names
and truth values they have (`ofFormula_eq_error_iff`).  What a formula is turned into are
clauses, that is, literals joined by disjunctions (`ofFormula_isClause`).
-/

namespace Presence

namespace Formula

variable {f g l r : Formula}

theorem containsConstants_of_truth {b : Bool} (h : f.outermost = .truth b) :
    f.containsConstants = true := by
  cases f with
  | constant => simp
  | negation f =>
      cases f with
      | constant => simp
      | atom | negation | conjunction | disjunction => cases h
  | atom | conjunction | disjunction => cases h

theorem isClause_of_literal (h : f.outermost = .literal) : f.isClause = true := by
  cases f with
  | atom => rfl
  | negation f =>
      cases f with
      | atom => rfl
      | constant | negation | conjunction | disjunction => cases h
  | constant | conjunction | disjunction => cases h

theorem containsConstants_of_both (h : f.outermost = .both l r) :
    f.containsConstants = (l.containsConstants || r.containsConstants) := by
  rcases outermost_both h with rfl | ⟨l', r', rfl, rfl, rfl⟩ <;> simp

theorem containsConstants_of_either (h : f.outermost = .either l r) :
    f.containsConstants = (l.containsConstants || r.containsConstants) := by
  rcases outermost_either h with rfl | ⟨l', r', rfl, rfl, rfl⟩ <;> simp

theorem height_of_both (h : f.outermost = .both l r) :
    f.height = max l.height r.height + 1 := by
  rcases outermost_both h with rfl | ⟨l', r', rfl, rfl, rfl⟩
  · rfl
  · simp only [height]
    omega

theorem height_of_either (h : f.outermost = .either l r) :
    f.height = max l.height r.height + 1 := by
  rcases outermost_either h with rfl | ⟨l', r', rfl, rfl, rfl⟩
  · rfl
  · simp only [height]
    omega

theorem containsConstants_withoutConstants (f : Formula) :
    f.withoutConstants.containsConstants = false := by
  induction f with
  | constant b => cases b <;> simp [withoutConstants]
  | atom name => simp [withoutConstants]
  | negation f ih => simp [withoutConstants, ih]
  | conjunction l r ihl ihr | disjunction l r ihl ihr => simp [withoutConstants, ihl, ihr]

theorem height_withoutConstants (f : Formula) : f.withoutConstants.height = f.height := by
  induction f with
  | constant b => cases b <;> rfl
  | atom name => rfl
  | negation f ih => simp [withoutConstants, height, ih]
  | conjunction l r ihl ihr | disjunction l r ihl ihr => simp [withoutConstants, height, ihl, ihr]

end Formula

namespace ClauseForm

open Formula

variable {strategy : Strategy} {maxDepth : Nat} {table : Option NameTable} {f : Formula}
  {form : ClauseForm} {cause : ConstraintError}

/-! ## Success -/

/-- Within as many levels as it is high, a formula without truth values has a clause form. -/
theorem exists_clausesOf (strategy : Strategy) (maxDepth : Nat) {levels : Nat} (s : Supply)
    (hheight : f.height ≤ levels) (hconstants : f.containsConstants = false) :
    ∃ form, clausesOf strategy maxDepth levels s f = .ok form := by
  -- A double negation uses up two levels.
  induction levels using Nat.strongRecOn generalizing s f with
  | ind levels ih =>
  cases levels with
  | zero => exact absurd hheight (Nat.not_le_of_lt f.height_pos)
  | succ levels =>
      rw [clausesOf]
      cases hf : f.outermost with
      | literal => exact ⟨_, rfl⟩
      | truth value =>
          rw [containsConstants_of_truth hf] at hconstants
          cases hconstants
      | doubleNegation g =>
          obtain rfl := outermost_doubleNegation hf
          simp only [height] at hheight
          simp only [containsConstants_negation] at hconstants
          cases levels with
          | zero => omega
          | succ levels => exact ih levels (by omega) s (by omega) hconstants
      | both l r =>
          rw [height_of_both hf] at hheight
          rw [containsConstants_of_both hf, Bool.or_eq_false_iff] at hconstants
          obtain ⟨left, hl⟩ := ih levels (by omega) s (f := l) (by omega) hconstants.1
          obtain ⟨right, hr⟩ := ih levels (by omega) left.supply (f := r) (by omega) hconstants.2
          exact ⟨_, bind_eq_ok_iff.2 ⟨left, hl, bind_eq_ok_iff.2 ⟨right, hr, rfl⟩⟩⟩
      | either l r =>
          rw [height_of_either hf] at hheight
          rw [containsConstants_of_either hf, Bool.or_eq_false_iff] at hconstants
          have hsides : ∀ s, ∃ left right,
              clausesOf strategy maxDepth levels s l = .ok left ∧
                clausesOf strategy maxDepth levels left.supply r = .ok right := by
            intro s
            obtain ⟨left, hl⟩ := ih levels (by omega) s (f := l) (by omega) hconstants.1
            obtain ⟨right, hr⟩ := ih levels (by omega) left.supply (f := r) (by omega) hconstants.2
            exact ⟨left, right, hl, hr⟩
          simp only
          split
          · obtain ⟨left, right, hl, hr⟩ := hsides s.fresh.2
            exact ⟨_, bind_eq_ok_iff.2 ⟨left, hl, bind_eq_ok_iff.2 ⟨right, hr, rfl⟩⟩⟩
          · obtain ⟨left, right, hl, hr⟩ := hsides s
            exact ⟨_, bind_eq_ok_iff.2 ⟨left, hl, bind_eq_ok_iff.2 ⟨right, hr, rfl⟩⟩⟩

theorem exists_ofFormula (strategy : Strategy) (table : Option NameTable)
    (hdepth : f.depth ≤ maxDepth + 1) :
    ∃ form, ofFormula strategy maxDepth table f = .ok form := by
  rw [ofFormula, if_neg (Nat.not_lt_of_le hdepth)]
  rw [depth_eq_height] at hdepth
  cases hconstants : f.containsConstants with
  | false =>
      simp only [Bool.false_eq_true, ↓reduceIte]
      exact exists_clausesOf strategy maxDepth _ hdepth hconstants
  | true =>
      rw [← height_withoutConstants] at hdepth
      simp only [↓reduceIte]
      obtain ⟨inner, hinner⟩ := exists_clausesOf strategy maxDepth (pseudoSupply table f) hdepth
        f.containsConstants_withoutConstants
      exact ⟨_, bind_eq_ok_iff.2 ⟨inner, hinner, rfl⟩⟩

/-- A formula has no clause form exactly if it is deeper than the limit. -/
theorem ofFormula_eq_error_iff :
    ofFormula strategy maxDepth table f = .error cause ↔
      maxDepth + 1 < f.depth ∧ cause = .tooDeep maxDepth := by
  rcases Nat.lt_or_ge (maxDepth + 1) f.depth with hdepth | hdepth
  · rw [ofFormula, if_pos hdepth, Except.error.injEq, and_iff_right hdepth, eq_comm]
  · obtain ⟨form, hform⟩ := exists_ofFormula strategy table hdepth
    rw [hform]
    constructor
    · intro h
      cases h
    · intro h
      exact absurd h.1 (Nat.not_lt_of_le hdepth)

/-! ## Shape of the clauses -/

theorem isClause_of_mem_distribute {left right : List Formula} {c : Formula}
    (hl : ∀ c ∈ left, c.isClause = true) (hr : ∀ c ∈ right, c.isClause = true)
    (hc : c ∈ distribute left right) : c.isClause = true := by
  obtain ⟨l, hmem, r, hmem', rfl⟩ := mem_distribute.1 hc
  rw [isClause, hl l hmem, hr r hmem', Bool.and_self]

theorem Converts.isClause {s : Supply} {names : List String}
    (h : Converts strategy s f names form) : ∀ c ∈ form.clauses, c.isClause = true := by
  induction h with
  | literal shape => exact List.forall_mem_singleton.2 (isClause_of_literal shape)
  | doubleNegation _ _ ih => exact ih
  | both _ _ _ ihl ihr => exact List.forall_mem_append.2 ⟨ihl, ihr⟩
  | replaced _ _ _ _ ihl ihr =>
      refine List.forall_mem_append.2 ⟨fun c hc => ?_, fun c hc => ?_⟩
      · exact isClause_of_mem_distribute (List.forall_mem_singleton.2 rfl) ihl hc
      · exact isClause_of_mem_distribute (List.forall_mem_singleton.2 rfl) ihr hc
  | joined _ _ _ _ ihl ihr => exact fun c hc => isClause_of_mem_distribute ihl ihr hc

theorem ofFormula_isClause (h : ofFormula strategy maxDepth table f = .ok form) :
    ∀ c ∈ form.clauses, c.isClause = true := by
  rcases ofFormula_cases h with ⟨_, names, hconverts⟩ | ⟨_, names, inner, hconverts, rfl⟩
  · exact hconverts.isClause
  · exact List.forall_mem_cons.2 ⟨rfl, List.forall_mem_cons.2 ⟨rfl, hconverts.isClause⟩⟩

end ClauseForm

end Presence
