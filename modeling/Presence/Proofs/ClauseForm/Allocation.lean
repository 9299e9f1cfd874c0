import Presence.Proofs.ClauseForm.Limits
import Presence.Proofs.ClauseForm.Numbering

/-!
# Numbers for unknown names

Numbering a row of clauses adds names to the table one after the other and changes nothing
else in it, and all literals are of variables that then have a name (`Allocates`).

A clause is numbered again each time that a name was added for it.  The names of the clause
without a number become fewer with each try (`countP_not_contains_add`), so the tries do not
run out, and clauses have a number for each of their names in the end.  Only an unknown name
that is a fault stops the numbering (`ofClauses_cases`).
-/

namespace Presence

open Formula ClauseForm

variable {policy : Policy} {t t' : NameTable} {whole clause : Formula}
  {stack clauses : List Formula} {ls : Clause} {numbered : Numbered} {n : String}

/-! ## Named literals -/

/-- The variables of the literals have names. -/
def Clause.Named (t : NameTable) (c : Clause) : Prop := ∀ l ∈ c, ∃ n, t.number? n = some l.number

theorem Clause.Named.of_extends (h : Clause.Named t ls) (hextends : t.Extends t') :
    Clause.Named t' ls := by
  intro l hl
  obtain ⟨n, hn⟩ := h l hl
  exact ⟨n, hextends.keeps n _ hn⟩

theorem named_of_literalsFrom (h : literalsFrom t whole stack = .ok ls) : Clause.Named t ls := by
  fun_induction literalsFrom t whole stack generalizing ls with
  | case1 =>
      cases h
      exact List.forall_mem_nil _
  | case2 stack name ih | case3 stack name ih =>
      obtain ⟨l, hl, h⟩ := bind_eq_ok_iff.1 h
      obtain ⟨rest, hrest, h⟩ := bind_eq_ok_iff.1 h
      obtain ⟨k, hk, rfl⟩ := NameTable.literal_eq_ok_iff.1 hl
      cases h
      exact List.forall_mem_cons.2 ⟨⟨name, hk⟩, ih hrest⟩
  | case4 stack l r ih => exact ih h
  | case5 => cases h

/-- The added names, and nothing else, are added to the table, and the table that results
names the variables of all literals. -/
structure Allocates (t : NameTable) (numbered : Numbered) : Prop where
  /-- The table is the former one with the added names. -/
  table_eq : numbered.table = (numbered.added.map Prod.fst).foldl NameTable.add t
  /-- All literals are of named variables. -/
  named : ∀ c ∈ numbered.clauses, Clause.Named numbered.table c

namespace Allocates

theorem extends_table (h : Allocates t numbered) : t.Extends numbered.table := by
  rw [h.table_eq]
  exact NameTable.extends_foldl_add _ t

theorem named_assertion (policy : Policy) (t : NameTable) (n : String) :
    ∀ c ∈ Numbered.assertion policy (t.numberOf n), Clause.Named (t.add n) c := by
  have hnumber : (t.add n).number? n = some (t.numberOf n) := by
    rw [NameTable.number?_add, if_pos rfl]
  cases policy with
  | fail | openWorld => exact List.forall_mem_nil _
  | closedWorld =>
      exact List.forall_mem_singleton.2 (List.forall_mem_singleton.2 ⟨n, hnumber⟩)

theorem cons_added (h : Allocates (t.add n) numbered) (policy : Policy) :
    Allocates t ⟨Numbered.assertion policy (t.numberOf n) ++ numbered.clauses,
      (n, t.numberOf n) :: numbered.added, numbered.table⟩ where
  table_eq := h.table_eq
  named := by
    refine List.forall_mem_append.2 ⟨fun c hc => ?_, h.named⟩
    exact (named_assertion policy t n c hc).of_extends h.extends_table

theorem append {first rest : Numbered} (hfirst : Allocates t first)
    (hrest : Allocates first.table rest) :
    Allocates t
      ⟨first.clauses ++ rest.clauses, first.added ++ rest.added, rest.table⟩ where
  table_eq := by
    simp only [List.map_append, List.foldl_append]
    rw [← hfirst.table_eq]
    exact hrest.table_eq
  named := by
    refine List.forall_mem_append.2 ⟨fun c hc => ?_, hrest.named⟩
    exact (hfirst.named c hc).of_extends hrest.extends_table

end Allocates

theorem allocates_of_within {tries : Nat}
    (h : Numbered.within policy clause tries t = .ok numbered) : Allocates t numbered := by
  fun_induction Numbered.within policy clause tries t generalizing numbered with
  | case1 tries t literals hliterals =>
      cases h
      exact ⟨rfl, List.forall_mem_singleton.2 (named_of_literalsFrom hliterals)⟩
  | case2 => cases h
  | case3 => cases h
  | case4 => cases h
  | case5 t cause hliterals tries number hpolicy =>
      rename_i ih
      obtain ⟨rest, hrest, h⟩ := bind_eq_ok_iff.1 h
      cases h
      exact (ih hrest).cons_added policy

theorem allocates_of_ofClauses (h : Numbered.ofClauses policy t clauses = .ok numbered) :
    Allocates t numbered := by
  induction clauses generalizing t numbered with
  | nil =>
      cases h
      exact ⟨rfl, List.forall_mem_nil _⟩
  | cons clause clauses ih =>
      obtain ⟨first, hfirst, h⟩ := bind_eq_ok_iff.1 h
      obtain ⟨rest, hrest, h⟩ := bind_eq_ok_iff.1 h
      cases h
      exact (allocates_of_within hfirst).append (ih hrest)

/-! ## Success -/

/-- Only what is no clause cannot have literals whatever the table is. -/
theorem literalsFrom_ne_constraint {cause : ConstraintError}
    (hstack : ∀ f ∈ stack, f.isClause = true) :
    literalsFrom t whole stack ≠ .error (.constraint cause) := by
  fun_induction literalsFrom t whole stack with
  | case1 =>
      intro h
      cases h
  | case2 stack name ih | case3 stack name ih =>
      intro h
      rcases bind_eq_error_iff.1 h with h | ⟨l, _, h⟩
      · rw [NameTable.literal] at h
        split at h <;> cases h
      · rcases bind_eq_error_iff.1 h with h | ⟨rest, _, h⟩
        · exact ih (List.forall_mem_cons.1 hstack).2 h
        · cases h
  | case4 stack l r ih =>
      obtain ⟨hclause, hstack⟩ := List.forall_mem_cons.1 hstack
      rw [isClause, Bool.and_eq_true] at hclause
      exact ih (List.forall_mem_cons.2 ⟨hclause.1, List.forall_mem_cons.2 ⟨hclause.2, hstack⟩⟩)
  | case5 f stack hatom hnegation hdisjunction =>
      have hclause := hstack f List.mem_cons_self
      cases f with
      | atom name => exact absurd rfl (hatom name)
      | disjunction l r => exact absurd rfl (hdisjunction l r)
      | negation g =>
          cases g with
          | atom name => exact absurd rfl (hnegation name)
          | constant | negation | conjunction | disjunction => cases hclause
      | constant | conjunction => cases hclause

/-- A clause has literals unless one of its names has no number. -/
theorem literals_cases (t : NameTable) (hclause : clause.isClause = true) :
    (∃ ls, clause.literals t = .ok ls) ∨
      ∃ cause, clause.literals t = .error (.unknownName cause) ∧ cause.name ∈ clause.atoms ∧
        t.contains cause.name = false := by
  cases h : clause.literals t with
  | ok ls => exact Or.inl ⟨ls, rfl⟩
  | error cause =>
      cases cause with
      | constraint cause =>
          exact absurd h (literalsFrom_ne_constraint (List.forall_mem_singleton.2 hclause))
      | unknownName cause =>
          obtain ⟨⟨c, hc, hname⟩, hcontains⟩ := unknownName_of_literalsFrom h
          rw [List.mem_singleton.1 hc] at hname
          exact Or.inr ⟨cause, rfl, hname, hcontains⟩

/-- Adding a name leaves fewer names without a number. -/
theorem countP_not_contains_add {names : List String} (hn : n ∈ names)
    (hcontains : t.contains n = false) :
    names.countP (fun m => !(t.add n).contains m) < names.countP fun m => !t.contains m := by
  simp only [NameTable.not_contains_add]
  rw [← List.countP_filter, List.countP_eq_length_filter, List.countP_eq_length_filter,
    List.length_filter_lt_length_iff_exists]
  exact ⟨n, List.mem_filter.2 ⟨hn, by simp [hcontains]⟩, by simp⟩

/-- With as many tries as names without a number, a clause is numbered unless unknown names
are a fault and it has one. -/
theorem within_cases {tries : Nat} (hclause : clause.isClause = true)
    (htries : clause.atoms.countP (fun m => !t.contains m) ≤ tries) :
    (∃ numbered, Numbered.within policy clause tries t = .ok numbered) ∨
      policy = .fail ∧ ∃ cause, Numbered.within policy clause tries t = .error (.unknownName cause) ∧
        cause.name ∈ clause.atoms ∧ t.contains cause.name = false := by
  fun_induction Numbered.within policy clause tries t with
  | case1 tries t literals hliterals => exact Or.inl ⟨_, rfl⟩
  | case2 tries t cause hliterals =>
      exact absurd hliterals (literalsFrom_ne_constraint (List.forall_mem_singleton.2 hclause))
  | case3 tries t cause hliterals hpolicy =>
      rcases literals_cases t hclause with ⟨ls, hls⟩ | ⟨cause', hcause, hname, hcontains⟩
      · rw [hliterals] at hls
        cases hls
      · rw [hliterals] at hcause
        cases hcause
        exact Or.inr ⟨hpolicy, cause, rfl, hname, hcontains⟩
  | case4 t cause hliterals hpolicy =>
      obtain ⟨⟨c, hc, hname⟩, hcontains⟩ := unknownName_of_literalsFrom hliterals
      rw [List.mem_singleton.1 hc] at hname
      have hpos : 0 < clause.atoms.countP fun m => !t.contains m :=
        List.countP_pos_iff.2 ⟨cause.name, hname, by simp [hcontains]⟩
      omega
  | case5 t cause hliterals tries number hpolicy =>
      rename_i ih
      obtain ⟨⟨c, hc, hname⟩, hcontains⟩ := unknownName_of_literalsFrom hliterals
      rw [List.mem_singleton.1 hc] at hname
      have hfewer := countP_not_contains_add hname hcontains
      rcases ih (by omega) with ⟨rest, hrest⟩ | ⟨hfail, _⟩
      · exact Or.inl ⟨_, bind_eq_ok_iff.2 ⟨rest, hrest, rfl⟩⟩
      · exact absurd hfail hpolicy

theorem ofClause_cases (policy : Policy) (t : NameTable) (hclause : clause.isClause = true) :
    (∃ numbered, Numbered.ofClause policy t clause = .ok numbered) ∨
      policy = .fail ∧ ∃ cause, Numbered.ofClause policy t clause = .error (.unknownName cause) ∧
        cause.name ∈ clause.atoms ∧ t.contains cause.name = false :=
  within_cases hclause (Nat.le_trans List.countP_le_length clause.length_atoms_le_leafCount)

/-- Clauses are numbered unless unknown names are a fault and they mention one. -/
theorem ofClauses_cases (policy : Policy) (t : NameTable)
    (hclauses : ∀ c ∈ clauses, c.isClause = true) :
    (∃ numbered, Numbered.ofClauses policy t clauses = .ok numbered) ∨
      policy = .fail ∧ ∃ cause, Numbered.ofClauses policy t clauses = .error (.unknownName cause) ∧
        Mentions clauses cause.name ∧ t.contains cause.name = false := by
  induction clauses generalizing t with
  | nil => exact Or.inl ⟨_, rfl⟩
  | cons clause clauses ih =>
      obtain ⟨hclause, hclauses⟩ := List.forall_mem_cons.1 hclauses
      rcases ofClause_cases policy t hclause with
        ⟨first, hfirst⟩ | ⟨hpolicy, cause, hcause, hname, hcontains⟩
      · rcases ih first.table hclauses with
          ⟨rest, hrest⟩ | ⟨hpolicy, cause, hcause, hmentions, hcontains⟩
        · exact Or.inl ⟨_, bind_eq_ok_iff.2 ⟨first, hfirst, bind_eq_ok_iff.2 ⟨rest, hrest, rfl⟩⟩⟩
        · refine Or.inr ⟨hpolicy, cause, ?_, mentions_cons.2 (Or.inr hmentions), ?_⟩
          · exact bind_eq_error_iff.2
              (Or.inr ⟨first, hfirst, bind_eq_error_iff.2 (Or.inl hcause)⟩)
          · rw [← Bool.not_eq_true] at hcontains ⊢
            exact fun ht => hcontains ((allocates_of_within hfirst).extends_table.contains ht)
      · exact Or.inr ⟨hpolicy, cause, bind_eq_error_iff.2 (Or.inl hcause),
          mentions_cons.2 (Or.inl hname), hcontains⟩

end Presence
