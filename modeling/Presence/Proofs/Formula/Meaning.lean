import Presence.ClauseForm.Conversion

/-!
# Meaning of formulas

The truth value of a formula depends on the values of its atoms only
(`eval_congr`).  What a formula amounts to at its root has the same value and
the same atoms, with the negation of a compound formula pushed below.
-/

namespace Presence.Formula

/-- The value depends on the atoms only. -/
theorem eval_congr {f : Formula} {a b : String → Bool} (h : ∀ name ∈ f.atoms, a name = b name) :
    f.eval a = f.eval b := by
  induction f with
  | constant value => rfl
  | atom name => exact h name (List.mem_singleton_self name)
  | negation f ih => rw [eval, eval, ih h]
  | conjunction l r ihl ihr =>
      rw [eval, eval, ihl fun n hn => h n (List.mem_append_left _ hn),
        ihr fun n hn => h n (List.mem_append_right _ hn)]
  | disjunction l r ihl ihr =>
      rw [eval, eval, ihl fun n hn => h n (List.mem_append_left _ hn),
        ihr fun n hn => h n (List.mem_append_right _ hn)]

/-! ## The outermost connective -/

theorem outermost_doubleNegation {f g : Formula} (h : f.outermost = .doubleNegation g) :
    f = negation (negation g) := by
  cases f with
  | negation f =>
      cases f with
      | negation f =>
          cases h
          rfl
      | constant | atom | conjunction | disjunction => cases h
  | constant | atom | conjunction | disjunction => cases h

theorem outermost_both {f l r : Formula} (h : f.outermost = .both l r) :
    f = conjunction l r ∨
      ∃ l' r', f = negation (disjunction l' r') ∧ l = negation l' ∧ r = negation r' := by
  cases f with
  | conjunction l' r' =>
      cases h
      exact Or.inl rfl
  | negation f =>
      cases f with
      | disjunction l' r' =>
          cases h
          exact Or.inr ⟨l', r', rfl, rfl, rfl⟩
      | constant | atom | negation | conjunction => cases h
  | constant | atom | disjunction => cases h

theorem outermost_either {f l r : Formula} (h : f.outermost = .either l r) :
    f = disjunction l r ∨
      ∃ l' r', f = negation (conjunction l' r') ∧ l = negation l' ∧ r = negation r' := by
  cases f with
  | disjunction l' r' =>
      cases h
      exact Or.inl rfl
  | negation f =>
      cases f with
      | conjunction l' r' =>
          cases h
          exact Or.inr ⟨l', r', rfl, rfl, rfl⟩
      | constant | atom | negation | disjunction => cases h
  | constant | atom | conjunction => cases h

theorem eval_of_both {f l r : Formula} (h : f.outermost = .both l r) (value : String → Bool) :
    f.eval value = (l.eval value && r.eval value) := by
  rcases outermost_both h with rfl | ⟨l', r', rfl, rfl, rfl⟩
  · rfl
  · simp [eval]

theorem atoms_of_both {f l r : Formula} (h : f.outermost = .both l r) :
    f.atoms = l.atoms ++ r.atoms := by
  rcases outermost_both h with rfl | ⟨l', r', rfl, rfl, rfl⟩ <;> rfl

theorem eval_of_either {f l r : Formula} (h : f.outermost = .either l r) (value : String → Bool) :
    f.eval value = (l.eval value || r.eval value) := by
  rcases outermost_either h with rfl | ⟨l', r', rfl, rfl, rfl⟩
  · rfl
  · simp [eval]

theorem atoms_of_either {f l r : Formula} (h : f.outermost = .either l r) :
    f.atoms = l.atoms ++ r.atoms := by
  rcases outermost_either h with rfl | ⟨l', r', rfl, rfl, rfl⟩ <;> rfl

end Presence.Formula
