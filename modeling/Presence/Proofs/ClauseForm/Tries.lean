import Presence.Proofs.ClauseForm.Policies

/-!
# Tries to number a clause

A clause is numbered again and again, and each try but the last adds one name to the table.  Taken
by itself, nothing limits the number of tries (`Tries`).  A name that was added is not unknown in
the next try, though, so the unknown names of the clause become fewer by one each time, and there
is one try more than there are of them (`tries_within`).  Thus tries never run out
(`ofClause_tries`).

The names are added in the order in which they first occur in the clause.  As none of them has a
number before, they get the numbers that follow the mark in this order
(`number?_foldl_add_of_new`).
-/

namespace Presence

open Formula ClauseForm

/-! ## New names -/

namespace NameTable

variable {t : NameTable} {names : List String}

/-- Different names without numbers get the numbers after the mark, in the order in which they are
added. -/
theorem number?_foldl_add_of_new (hnodup : names.Nodup)
    (hnew : ∀ n ∈ names, t.contains n = false) :
    (names.foldl add t).mark = t.mark + names.length ∧
      ∀ n, (names.foldl add t).number? n =
        if n ∈ names then some (t.mark + 1 + names.idxOf n) else t.number? n := by
  induction names generalizing t with
  | nil => exact ⟨rfl, fun n => rfl⟩
  | cons name names ih =>
      obtain ⟨hname, hnodup⟩ := List.nodup_cons.1 hnodup
      obtain ⟨hcontains, hnew⟩ := List.forall_mem_cons.1 hnew
      have hrest : ∀ n ∈ names, (t.add name).contains n = false := by
        intro n hn
        rw [← Bool.not_eq_true, contains_add, not_or, Bool.not_eq_true]
        exact ⟨fun heq => hname (heq ▸ hn), hnew n hn⟩
      obtain ⟨hmark, hnumber⟩ := ih hnodup hrest
      rw [mark_add_of_not_contains hcontains] at hmark hnumber
      rw [List.foldl_cons]
      refine ⟨?_, fun n => ?_⟩
      · rw [hmark, List.length_cons]
        omega
      · rw [hnumber, number?_add, numberOf_of_not_contains hcontains]
        by_cases hn : n = name
        · subst hn
          rw [if_neg hname, if_pos rfl, if_pos List.mem_cons_self, List.idxOf_cons_self]
        · have hposition : t.mark + 1 + (names.idxOf n + 1) = t.mark + 1 + 1 + names.idxOf n := by
            omega
          rw [List.idxOf_cons_ne _ (Ne.symm hn), if_neg hn, hposition]
          simp only [List.mem_cons, hn, false_or]

end NameTable

namespace Numbered

/-! ## Tries -/

/-- One try to number the clause: either an outcome or the name to add before the next try. -/
def attempt (policy : Policy) (clause : Formula) (t : NameTable) :
    Except NumberingError Numbered ⊕ String :=
  match clause.literals t with
  | .ok literals => .inl (.ok ⟨[literals], [], t⟩)
  | .error (.constraint cause) => .inl (.error (.constraint cause))
  | .error (.unknownName cause) =>
      if policy = .fail then .inl (.error (.unknownName cause)) else .inr cause.name

/-- What results if a name is added first. -/
def withAdded (policy : Policy) (t : NameTable) (n : String) (rest : Numbered) : Numbered :=
  ⟨assertion policy (t.numberOf n) ++ rest.clauses, (n, t.numberOf n) :: rest.added, rest.table⟩

/-- One try after the other comes to the outcome, and so many are made. -/
inductive Tries (policy : Policy) (clause : Formula) :
    (tries : Nat) → NameTable → Except NumberingError Numbered → Prop where
  /-- The last try has an outcome. -/
  | last {t outcome} (isOutcome : attempt policy clause t = .inl outcome) :
      Tries policy clause 1 t outcome
  /-- A name is added, and the clause is tried again. -/
  | again {tries t n outcome} (isUnknown : attempt policy clause t = .inr n)
      (rest : Tries policy clause tries (t.add n) outcome) :
      Tries policy clause (tries + 1) t (outcome.map (withAdded policy t n))

variable {policy : Policy} {t : NameTable} {clause f : Formula} {tries tries' maxDepth : Nat}
  {outcome outcome' : Except NumberingError Numbered} {n : String} {strategy : Strategy}
  {table : Option NameTable} {form : ClauseForm}

/-- There is no choice in the tries. -/
theorem Tries.unique (h : Tries policy clause tries t outcome)
    (h' : Tries policy clause tries' t outcome') : tries' = tries ∧ outcome' = outcome := by
  induction h generalizing tries' outcome' with
  | last isOutcome =>
      cases h' with
      | last isOutcome' =>
          rw [isOutcome, Sum.inl.injEq] at isOutcome'
          exact ⟨rfl, isOutcome'.symm⟩
      | again isUnknown _ => cases isOutcome.symm.trans isUnknown
  | again isUnknown _ ih =>
      cases h' with
      | last isOutcome => cases isUnknown.symm.trans isOutcome
      | again isUnknown' rest =>
          rw [isUnknown, Sum.inr.injEq] at isUnknown'
          subst isUnknown'
          obtain ⟨rfl, rfl⟩ := ih rest
          exact ⟨rfl, rfl⟩

/-! ## How many tries are made -/

theorem length_unknownNames_le (t : NameTable) (clause : Formula) :
    (unknownNames t clause).length ≤ clause.leafCount := by
  refine Nat.le_trans ?_ clause.length_atoms_le_leafCount
  exact (nodup_eraseDups _).length_le_of_subset fun n hn => (mem_unknownNames.1 hn).1

/-- If an unknown name is a fault, one try is made. -/
theorem tries_within_fail (tries : Nat) (t : NameTable) :
    Tries .fail clause 1 t (within .fail clause tries t) := by
  refine .last ?_
  rw [attempt, within]
  cases clause.literals t with
  | ok literals => rfl
  | error cause => cases cause <;> rfl

/-- Otherwise there is one try more than there are unknown names, if so many are allowed for. -/
theorem tries_within (hpolicy : policy ≠ .fail) (hclause : clause.isClause = true)
    (htries : (unknownNames t clause).length ≤ tries) :
    Tries policy clause ((unknownNames t clause).length + 1) t
      (within policy clause tries t) := by
  fun_induction within policy clause tries t with
  | case1 tries t literals hliterals =>
      rw [unknownNames_eq_nil (contains_of_literals hliterals)]
      exact .last (by rw [attempt, hliterals])
  | case2 tries t cause hliterals =>
      exact absurd hliterals (literalsFrom_ne_constraint (List.forall_mem_singleton.2 hclause))
  | case3 tries t cause _ hfail => exact absurd hfail hpolicy
  | case4 t cause hliterals =>
      rw [unknownNames_eq_cons (find?_of_literals hliterals)] at htries
      cases htries
  | case5 t cause hliterals tries number =>
      rename_i ih
      rw [unknownNames_eq_cons (find?_of_literals hliterals)] at htries ⊢
      have hattempt : attempt policy clause t = .inr cause.name := by
        simp only [attempt, hliterals, hpolicy, ↓reduceIte]
      have hrest := Tries.again hattempt (ih (Nat.le_of_succ_le_succ htries))
      cases hwithin : within policy clause tries (t.add cause.name) with
      | ok rest =>
          rw [hwithin] at hrest
          exact hrest
      | error cause =>
          rw [hwithin] at hrest
          exact hrest

theorem tries_ofClause (policy : Policy) (t : NameTable) (hclause : clause.isClause = true) :
    ∃ tries ≤ (unknownNames t clause).length + 1,
      Tries policy clause tries t (ofClause policy t clause) := by
  by_cases hpolicy : policy = .fail
  · subst hpolicy
    exact ⟨1, Nat.le_add_left _ _, tries_within_fail _ t⟩
  · exact ⟨_, Nat.le_refl _, tries_within hpolicy hclause (length_unknownNames_le t clause)⟩

/-! ## The outcome -/

theorem pairwise_idxOf_unknownNames (t : NameTable) (clause : Formula) :
    (unknownNames t clause).Pairwise fun m n => clause.atoms.idxOf m < clause.atoms.idxOf n := by
  have hunknown : ∀ {n}, n ∈ unknownNames t clause → (!t.contains n) = true := by
    intro n hn
    rw [(mem_unknownNames.1 hn).2, Bool.not_false]
  refine (pairwise_idxOf_eraseDups _).imp_of_mem fun hm hn hlt => ?_
  exact idxOf_lt_of_idxOf_filter_lt (fun n => !t.contains n) (hunknown hm) (hunknown hn) hlt

/-- Exactly the unknown names get numbers, those that follow the mark. -/
theorem number?_of_ofClause {numbered : Numbered} (h : ofClause policy t clause = .ok numbered) :
    numbered.table.mark = t.mark + (unknownNames t clause).length ∧
      ∀ n, numbered.table.number? n =
        if n ∈ unknownNames t clause then some (t.mark + 1 + (unknownNames t clause).idxOf n)
        else t.number? n := by
  rw [(within_eq_ok h).1]
  exact NameTable.number?_foldl_add_of_new (nodup_eraseDups _) fun n hn => (mem_unknownNames.1 hn).2

/-- Whatever the table and the policy are, a clause of a clause form takes at most one try more than
it has unknown names, and the outcome is that of numbering it.  If unknown names get numbers, the
clause has its literals in the end, by the table to which exactly its unknown names are added.
These are numbered from the mark on, in the order in which they first occur in the clause. -/
theorem ofClause_tries (hform : ofFormula strategy maxDepth table f = .ok form)
    (hclause : clause ∈ form.clauses) (policy : Policy) (t : NameTable) :
    ∃ names : List String, names.Nodup ∧
      (∀ n, n ∈ names ↔ n ∈ clause.atoms ∧ t.contains n = false) ∧
      names.Pairwise (fun m n => clause.atoms.idxOf m < clause.atoms.idxOf n) ∧
      (∃ tries ≤ names.length + 1, ∀ k outcome, Tries policy clause k t outcome ↔
        k = tries ∧ outcome = ofClause policy t clause) ∧
      (policy ≠ .fail → ∃ numbered ls, ofClause policy t clause = .ok numbered ∧
        clause.literals numbered.table = .ok ls ∧
        numbered.clauses =
          names.flatMap (fun n => assertion policy (numbered.table.numberOf n)) ++ [ls] ∧
        numbered.table.mark = t.mark + names.length ∧
        ∀ n, numbered.table.number? n =
          if n ∈ names then some (t.mark + 1 + names.idxOf n) else t.number? n) := by
  have hisClause := ofFormula_isClause hform clause hclause
  refine ⟨unknownNames t clause, nodup_eraseDups _, fun n => mem_unknownNames,
    pairwise_idxOf_unknownNames t clause, ?_, fun hpolicy => ?_⟩
  · obtain ⟨tries, hle, htries⟩ := tries_ofClause policy t hisClause
    refine ⟨tries, hle, fun k outcome => ⟨htries.unique, ?_⟩⟩
    rintro ⟨rfl, rfl⟩
    exact htries
  · obtain ⟨numbered, hnumbered⟩ | ⟨hfail, _⟩ := ofClause_cases policy t hisClause
    · obtain ⟨-, ls, hls, hclauses⟩ := within_eq_ok hnumbered
      exact ⟨numbered, ls, hnumbered, hls, hclauses, number?_of_ofClause hnumbered⟩
    · exact absurd hfail hpolicy

/-- The clause `(A || !B) || (A || C)`. -/
def triesExample : Formula :=
  disjunction (disjunction (atom "A") (negation (atom "B"))) (disjunction (atom "A") (atom "C"))

/-- The table of the one name `B`, with the number 1. -/
def triesTable : NameTable := NameTable.empty.add "B"

theorem ofClause_tries_example :
    ∃ form, ofFormula .distributive 3 none triesExample = .ok form ∧ triesExample ∈ form.clauses ∧
      ∃ names : List String, "A" ∈ names ∧ "B" ∉ names ∧ "C" ∈ names ∧
        (∃ tries ≤ names.length + 1, Tries .closedWorld triesExample tries triesTable
          (ofClause .closedWorld triesTable triesExample)) ∧
        ∃ numbered, ofClause .closedWorld triesTable triesExample = .ok numbered ∧
          numbered.table.number? "B" = some 1 ∧
          numbered.table.number? "A" = some (2 + names.idxOf "A") := by
  have hconvert : (ofFormula .distributive 3 none triesExample).toOption.map (·.clauses) =
      some [triesExample] := by decide +kernel
  obtain ⟨form, hform, hclauses⟩ := exists_of_map_toOption hconvert
  have hclause : triesExample ∈ form.clauses := hclauses ▸ List.mem_singleton_self _
  obtain ⟨names, -, hmem, -, ⟨tries, hle, htries⟩, hnumbers⟩ :=
    ofClause_tries hform hclause .closedWorld triesTable
  obtain ⟨numbered, ls, hnumbered, -, -, -, hnumber⟩ := hnumbers nofun
  have hA : "A" ∈ names := (hmem "A").2 ⟨by decide, by decide +kernel⟩
  have hB : "B" ∉ names := fun h => absurd ((hmem "B").1 h).2 (by decide +kernel)
  refine ⟨form, hform, hclause, names, hA, hB, (hmem "C").2 ⟨by decide, by decide +kernel⟩,
    ⟨tries, hle, (htries _ _).2 ⟨rfl, rfl⟩⟩, numbered, hnumbered, ?_, ?_⟩
  · rw [hnumber, if_neg hB]
    decide +kernel
  · rw [hnumber, if_pos hA]
    rfl

/-- In a closed world the unknown name of `A || !B` is denied in front of the clause. -/
example : (ofClause .closedWorld (NameTable.empty.add "B")
      (disjunction (atom "A") (negation (atom "B")))).toOption.map (·.clauses) =
    some [[⟨2, false⟩], [⟨2, true⟩, ⟨1, false⟩]] := by decide +kernel

end Numbered

end Presence
