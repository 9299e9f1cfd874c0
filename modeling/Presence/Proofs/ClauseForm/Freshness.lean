import Presence.Proofs.ClauseForm.Conversion

/-!
# Freshness of introduced names

Temporaries differ from the names of the formula and of the table, and all
introduced names differ from each other.  The names of the two atoms for truth
values are handed out without a look at what is in use, so they are new only if
neither the formula nor the table has them (`ofFormula_issued_isNew_iff`).
-/

namespace Presence.ClauseForm

open Formula

/-- Neither the table nor the formula has the name. -/
def IsNew (table : Option NameTable) (f : Formula) (name : String) : Prop :=
  name ∉ f.atoms ∧ ∀ t, table = some t → t.contains name = false

variable {strategy : Strategy} {maxDepth : Nat} {table : Option NameTable} {f : Formula}
  {form : ClauseForm} {n : String}

theorem isNew_iff : IsNew table f n ↔ (startSupply table f).isUsed n = false := by
  rw [← Bool.not_eq_true, isUsed_startSupply, not_or, IsNew]
  simp

/-- The temporaries come after the names for truth values.  They are new, and no
name is introduced twice. -/
theorem ofFormula_issued (h : ofFormula strategy maxDepth table f = .ok form) :
    ∃ temporaries, form.supply.issued = temporaries ++ pseudoNames f ∧
      form.supply.issued.Nodup ∧ ∀ n ∈ temporaries, IsNew table f n := by
  rcases ofFormula_cases h with ⟨hconstants, names, hconverts⟩ |
    ⟨hconstants, names, inner, hconverts, rfl⟩
  · have hissued := hconverts.draws.issued
    rw [startSupply, List.append_nil] at hissued
    refine ⟨names.reverse, ?_, ?_, fun n hn => ?_⟩
    · rw [hissued, pseudoNames, hconstants, if_neg Bool.false_ne_true, List.append_nil]
    · rw [hissued]
      exact List.nodup_reverse.2 hconverts.draws.nodup
    · exact isNew_iff.2 (hconverts.draws.new n (List.mem_reverse.1 hn))
  · have hissued : inner.supply.issued = names.reverse ++ [pseudoFalse, pseudoTrue] :=
      hconverts.draws.issued
    refine ⟨names.reverse, ?_, ?_, fun n hn => ?_⟩
    · rw [hissued, pseudoNames, hconstants, if_pos rfl]
    -- The names for truth values are in use when temporaries are drawn.
    · rw [hissued, List.nodup_append]
      refine ⟨List.nodup_reverse.2 hconverts.draws.nodup, by decide, fun n hn m hm heq => ?_⟩
      refine hconverts.draws.not_mem (isUsed_pseudoSupply.2 ?_) (List.mem_reverse.1 hn)
      rw [heq]
      rcases List.mem_cons.1 hm with hm | hm
      · exact Or.inl hm
      · exact Or.inr (Or.inl (List.mem_singleton.1 hm))
    · have hunused := hconverts.draws.new n (List.mem_reverse.1 hn)
      rw [← Bool.not_eq_true, isUsed_pseudoSupply, ← isUsed_startSupply, not_or, not_or,
        Bool.not_eq_true] at hunused
      exact isNew_iff.2 hunused.2.2

/-- All introduced names are new exactly if those for truth values are. -/
theorem issued_isNew_iff (h : ofFormula strategy maxDepth table f = .ok form) :
    (∀ n ∈ form.supply.issued, IsNew table f n) ↔
      (f.containsConstants = true → IsNew table f pseudoTrue ∧ IsNew table f pseudoFalse) := by
  obtain ⟨temporaries, hissued, _, hnew⟩ := ofFormula_issued h
  rw [hissued, List.forall_mem_append, and_iff_right hnew, pseudoNames]
  cases f.containsConstants with
  | false => simp
  | true => simp [and_comm]

/-- The introduced names are those of the clauses beside the names of the
formula, no name is introduced twice, and all temporaries are new.  All
introduced names are new exactly if a formula with truth values leaves the names
of their atoms alone and the table does so too. -/
theorem ofFormula_issued_isNew_iff (h : ofFormula strategy maxDepth table f = .ok form) :
    (∀ n, Mentions form.clauses n ↔ n ∈ f.atoms ∨ n ∈ form.supply.issued) ∧
    form.supply.issued.Nodup ∧
    (∃ temporaries, form.supply.issued = temporaries ++ pseudoNames f ∧
      ∀ n ∈ temporaries, IsNew table f n) ∧
    ((∀ n ∈ form.supply.issued, IsNew table f n) ↔
      (f.containsConstants = true → IsNew table f pseudoTrue ∧ IsNew table f pseudoFalse)) := by
  obtain ⟨temporaries, hissued, hnodup, hnew⟩ := ofFormula_issued h
  exact ⟨ofFormula_mentions_iff h, hnodup, ⟨temporaries, hissued, hnew⟩, issued_isNew_iff h⟩

/-- The formula `PSEUDO_FALSE && 1`, which takes the name of an atom for truth values. -/
def takenPseudoExample : Formula := conjunction (atom pseudoFalse) (constant true)

theorem ofFormula_issued_isNew_iff_example :
    ∃ form, ofFormula .replacing 3 none (disjunction (atom "temp_0") (constant true)) = .ok form ∧
      ∀ n ∈ form.supply.issued, IsNew none (disjunction (atom "temp_0") (constant true)) n := by
  have hok : (ofFormula .replacing 3 none (disjunction (atom "temp_0") (constant true))).isOk =
      true := by decide +kernel
  cases h : ofFormula .replacing 3 none (disjunction (atom "temp_0") (constant true)) with
  | error cause => rw [h] at hok; cases hok
  | ok form =>
      refine ⟨form, rfl, (ofFormula_issued_isNew_iff h).2.2.2.2 fun _ => ⟨?_, ?_⟩⟩
      · exact ⟨by decide, fun t ht => nomatch ht⟩
      · exact ⟨by decide, fun t ht => nomatch ht⟩

/-- The atom for `false` gets a name of the formula, and so a satisfiable formula
has clauses that never hold together. -/
theorem pseudoFalse_isNew_fails :
    ∃ form, ofFormula .replacing 1000 none takenPseudoExample = .ok form ∧
      (∃ n ∈ form.supply.issued, ¬IsNew none takenPseudoExample n) ∧
      takenPseudoExample.Satisfiable ∧
      ¬∃ value, ∀ c ∈ form.clauses, c.eval value = true := by
  have hclauses : (ofFormula .replacing 1000 none takenPseudoExample).map
      (fun form => (form.clauses, form.supply.issued)) =
      .ok ([atom pseudoTrue, negation (atom pseudoFalse), atom pseudoFalse, atom pseudoTrue],
        [pseudoFalse, pseudoTrue]) := by decide +kernel
  cases h : ofFormula .replacing 1000 none takenPseudoExample with
  | error cause => rw [h] at hclauses; cases hclauses
  | ok form =>
      rw [h] at hclauses
      obtain ⟨hclauses, hissued⟩ : form.clauses = _ ∧ form.supply.issued = _ := by
        simpa [Except.map] using hclauses
      refine ⟨form, rfl, ⟨pseudoFalse, ?_, ?_⟩, ⟨fun _ => true, rfl⟩, ?_⟩
      · rw [hissued]
        exact List.mem_cons_self
      · exact fun hnew => hnew.1 (List.mem_append_left _ (List.mem_singleton_self _))
      · rintro ⟨value, hholds⟩
        rw [hclauses] at hholds
        have htrue := hholds (atom pseudoFalse) (by simp)
        have hfalse := hholds (negation (atom pseudoFalse)) (by simp)
        rw [eval] at htrue
        rw [eval, eval, htrue] at hfalse
        cases hfalse

end Presence.ClauseForm
