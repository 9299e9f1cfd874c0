import Presence.Proofs.ClauseForm.Allocation

/-!
# Literals of clauses

The literals of a clause are its atoms from left to right, each with the number of its name and
with the sign that the negations above it give it (`signedAtoms`, `IsLiteralOf`).

They are collected with a stack, on which the sides of a disjunction lie in its place.  So the
facts about the collection are about all formulas on the stack: what a result says of them
(`forall₂_of_literalsFrom`, `isClause_of_literalsFrom`), and which of their names a fault is about
(`find?_of_literalsFrom`).  Together they say when a formula has literals and what is reported if
it has none (`literals_outcome`).
-/

namespace Presence

open Formula ClauseForm

namespace Formula

/-- The names at the atoms from left to right, each with whether an even number of negations is
above it. -/
def signedAtoms : Formula → List (String × Bool)
  | constant _ => []
  | atom name => [(name, true)]
  | negation f => f.signedAtoms.map fun (name, positive) => (name, !positive)
  | conjunction l r | disjunction l r => l.signedAtoms ++ r.signedAtoms

theorem map_fst_signedAtoms (f : Formula) : f.signedAtoms.map Prod.fst = f.atoms := by
  induction f with
  | constant b => rfl
  | atom name => rfl
  | negation f ih => rw [signedAtoms, List.map_map, atoms, ← ih]; rfl
  | conjunction l r ihl ihr | disjunction l r ihl ihr =>
      rw [signedAtoms, List.map_append, ihl, ihr, atoms]

/-- The leaves of a clause are atoms. -/
theorem length_atoms_of_isClause {f : Formula} (h : f.isClause = true) :
    f.atoms.length = f.leafCount := by
  induction f with
  | atom name => rw [leafCount_atom]; rfl
  | negation f =>
      cases f with
      | atom name => rw [leafCount_negation, leafCount_atom]; rfl
      | constant | negation | conjunction | disjunction => cases h
  | disjunction l r ihl ihr =>
      rw [isClause, Bool.and_eq_true] at h
      rw [atoms, List.length_append, ihl h.1, ihr h.2, leafCount_disjunction]
  | constant | conjunction => cases h

end Formula

/-- The literal has the number of the name and the same sign. -/
def IsLiteralOf (t : NameTable) (a : String × Bool) (l : Literal) : Prop :=
  t.number? a.1 = some l.number ∧ l.positive = a.2

variable {t : NameTable} {whole clause : Formula} {stack : List Formula} {ls : Clause}
  {n : String} {cause : UnknownName}

/-! ## Results -/

/-- The atoms of the formulas on the stack have become literals. -/
theorem forall₂_of_literalsFrom (h : literalsFrom t whole stack = .ok ls) :
    List.Forall₂ (IsLiteralOf t) (stack.flatMap signedAtoms) ls := by
  fun_induction literalsFrom t whole stack generalizing ls with
  | case1 =>
      cases h
      exact .nil
  | case2 stack name ih | case3 stack name ih =>
      obtain ⟨l, hl, h⟩ := bind_eq_ok_iff.1 h
      obtain ⟨rest, hrest, h⟩ := bind_eq_ok_iff.1 h
      obtain ⟨k, hk, rfl⟩ := NameTable.literal_eq_ok_iff.1 hl
      cases h
      exact .cons ⟨hk, rfl⟩ (ih hrest)
  | case4 stack l r ih =>
      have hliterals := ih h
      rw [List.flatMap_cons, List.flatMap_cons, ← List.append_assoc] at hliterals
      exact hliterals
  | case5 => cases h

/-- Only clauses have literals. -/
theorem isClause_of_literalsFrom (h : literalsFrom t whole stack = .ok ls) :
    ∀ f ∈ stack, f.isClause = true := by
  fun_induction literalsFrom t whole stack generalizing ls with
  | case1 => exact List.forall_mem_nil _
  | case2 stack name ih | case3 stack name ih =>
      obtain ⟨l, _, h⟩ := bind_eq_ok_iff.1 h
      obtain ⟨rest, hrest, _⟩ := bind_eq_ok_iff.1 h
      exact List.forall_mem_cons.2 ⟨rfl, ih hrest⟩
  | case4 stack l r ih =>
      obtain ⟨hl, hrest⟩ := List.forall_mem_cons.1 (ih h)
      obtain ⟨hr, hstack⟩ := List.forall_mem_cons.1 hrest
      refine List.forall_mem_cons.2 ⟨?_, hstack⟩
      rw [isClause, hl, hr, Bool.and_self]
  | case5 => cases h

/-! ## Faults -/

/-- The first name without a number is reported. -/
theorem find?_of_literalsFrom (h : literalsFrom t whole stack = .error (.unknownName cause)) :
    (stack.flatMap atoms).find? (fun n => !t.contains n) = some cause.name := by
  fun_induction literalsFrom t whole stack with
  | case1 => cases h
  | case2 stack name ih | case3 stack name ih =>
      rw [List.flatMap_cons]
      rcases bind_eq_error_iff.1 h with h | ⟨l, hl, h⟩
      · obtain ⟨hname, hcontains⟩ := NameTable.not_contains_of_literal h
        rw [hname]
        exact List.find?_cons_of_pos (by rw [hcontains]; rfl)
      · obtain ⟨k, hk, _⟩ := NameTable.literal_eq_ok_iff.1 hl
        have hcontains := NameTable.contains_of_number? hk
        rcases bind_eq_error_iff.1 h with h | ⟨rest, _, h⟩
        · rw [← ih h]
          exact List.find?_cons_of_neg (by rw [hcontains]; exact Bool.false_ne_true)
        · cases h
  | case4 stack l r ih =>
      rw [← ih h, List.flatMap_cons, List.flatMap_cons, List.flatMap_cons, ← List.append_assoc,
        atoms]
  | case5 => cases h

/-- What is no clause is reported as a whole. -/
theorem constraint_of_literalsFrom {cause : ConstraintError}
    (h : literalsFrom t whole stack = .error (.constraint cause)) :
    cause = .notAClause whole.render := by
  fun_induction literalsFrom t whole stack with
  | case1 => cases h
  | case2 stack name ih | case3 stack name ih =>
      rcases bind_eq_error_iff.1 h with h | ⟨l, _, h⟩
      · rw [NameTable.literal] at h
        split at h <;> cases h
      · rcases bind_eq_error_iff.1 h with h | ⟨rest, _, h⟩
        · exact ih h
        · cases h
  | case4 stack l r ih => exact ih h
  | case5 =>
      cases h
      rfl

/-! ## Clauses -/

theorem forall₂_of_literals (h : clause.literals t = .ok ls) :
    List.Forall₂ (IsLiteralOf t) clause.signedAtoms ls := by
  have hliterals := forall₂_of_literalsFrom h
  rwa [List.flatMap_singleton] at hliterals

theorem isClause_of_literals (h : clause.literals t = .ok ls) : clause.isClause = true :=
  isClause_of_literalsFrom h clause (List.mem_singleton_self _)

theorem find?_of_literals (h : clause.literals t = .error (.unknownName cause)) :
    clause.atoms.find? (fun n => !t.contains n) = some cause.name := by
  have hfind := find?_of_literalsFrom h
  rwa [List.flatMap_singleton] at hfind

theorem contains_of_literals (h : clause.literals t = .ok ls) :
    ∀ n ∈ clause.atoms, t.contains n = true :=
  fun n hn => (hasLiterals_of_literalsFrom h).contains n ⟨clause, List.mem_singleton_self _, hn⟩

/-- The names of the clause are the only ones whose values matter. -/
theorem eval_iff_of_literals (h : clause.literals t = .ok ls) {v : Nat → Bool}
    {a : String → Bool} (ha : ∀ n ∈ clause.atoms, ∀ k, t.number? n = some k → a n = v k) :
    clause.eval a = true ↔ ∃ l ∈ ls, l.holds v = true := by
  have hreads := t.readsOff_readNames v a
  have heval : clause.eval a = clause.eval (t.readNames v a) := by
    refine eval_congr fun n hn => ?_
    obtain ⟨k, hk⟩ := NameTable.contains_iff.1 (contains_of_literals h n hn)
    rw [ha n hn k hk, hreads n k hk]
  rw [heval, ← Clause.holds_iff, (hasLiterals_of_literalsFrom h).holds v _ hreads]
  simp

theorem length_of_literals (h : clause.literals t = .ok ls) : ls.length = clause.leafCount := by
  rw [← length_atoms_of_isClause (isClause_of_literals h), ← map_fst_signedAtoms, List.length_map]
  exact (forall₂_of_literals h).length_eq.symm

theorem exists_literals (hclause : clause.isClause = true)
    (hknown : ∀ n ∈ clause.atoms, t.contains n = true) : ∃ ls, clause.literals t = .ok ls := by
  rcases literals_cases t hclause with h | ⟨cause, _, hname, hcontains⟩
  · exact h
  · rw [hknown _ hname] at hcontains
    cases hcontains

theorem literals_of_not_isClause (hclause : clause.isClause = false)
    (hknown : ∀ n ∈ clause.atoms, t.contains n = true) :
    clause.literals t = .error (.constraint (.notAClause clause.render)) := by
  cases h : clause.literals t with
  | ok ls =>
      rw [isClause_of_literals h] at hclause
      cases hclause
  | error cause =>
      cases cause with
      | constraint cause => rw [constraint_of_literalsFrom h]
      | unknownName cause =>
          have hfind := find?_of_literals h
          have hunknown := List.find?_some hfind
          rw [hknown _ (List.mem_of_find?_eq_some hfind)] at hunknown
          cases hunknown

/-- The leftmost name of a clause without a number is reported. -/
theorem literals_of_unknown {before after : List String} (hclause : clause.isClause = true)
    (hatoms : clause.atoms = before ++ n :: after) (hbefore : ∀ m ∈ before, t.contains m = true)
    (hn : t.contains n = false) : clause.literals t = .error (.unknownName ⟨n⟩) := by
  rcases literals_cases t hclause with ⟨ls, h⟩ | ⟨cause, h, _, _⟩
  · rw [contains_of_literals h n (by rw [hatoms]; simp)] at hn
    cases hn
  · have hfind : clause.atoms.find? (fun n => !t.contains n) = some n := by
      rw [List.find?_eq_some_iff_append]
      refine ⟨by rw [hn]; rfl, before, after, hatoms, fun m hm => ?_⟩
      rw [hbefore m hm]
      rfl
    rw [find?_of_literals h, Option.some.injEq] at hfind
    rw [h, ← hfind]

/-- A formula has literals exactly if it is a clause and all its names have numbers.  Then each
leaf has become a literal with the number and the sign of the leaf, in order, and the formula holds
where one of them does.  If there are no literals because the formula is no clause, that is
reported, and if a clause has none, the leftmost name without a number is. -/
theorem literals_outcome (t : NameTable) (f : Formula) :
    ((∃ ls, f.literals t = .ok ls) ↔
      f.isClause = true ∧ ∀ n ∈ f.atoms, t.contains n = true) ∧
    (∀ ls, f.literals t = .ok ls →
      ls.length = f.leafCount ∧ List.Forall₂ (IsLiteralOf t) f.signedAtoms ls ∧
      ∀ v a, (∀ n ∈ f.atoms, ∀ k, t.number? n = some k → a n = v k) →
        (f.eval a = true ↔ ∃ l ∈ ls, l.holds v = true)) ∧
    (f.isClause = false → (∀ n ∈ f.atoms, t.contains n = true) →
      f.literals t = .error (.constraint (.notAClause f.render))) ∧
    (f.isClause = true → ∀ before n after, f.atoms = before ++ n :: after →
      (∀ m ∈ before, t.contains m = true) → t.contains n = false →
      f.literals t = .error (.unknownName ⟨n⟩)) := by
  refine ⟨⟨?_, ?_⟩, ?_, literals_of_not_isClause, ?_⟩
  · rintro ⟨ls, h⟩
    exact ⟨isClause_of_literals h, contains_of_literals h⟩
  · rintro ⟨hclause, hknown⟩
    exact exists_literals hclause hknown
  · intro ls h
    exact ⟨length_of_literals h, forall₂_of_literals h, fun v a => eval_iff_of_literals h⟩
  · intro hclause before n after
    exact literals_of_unknown hclause

end Presence
