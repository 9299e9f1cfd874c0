import Presence.Proofs.ClauseForm.Literals

/-!
# Policies for unknown names

A clause is numbered again for each of its unknown names, from left to right.  In the end the
names are added in the order in which they first occur, and the clause has its literals by the
table with all of them, behind what the policy asserts of each (`within_eq_ok`).

So policies under which unknown names get numbers differ in these assertions only.  In a closed
world each name is denied once, and a name that an earlier clause has used is not unknown any
more, so the denial stands in front of the first clause that uses the name (`Denies`,
`denies_of_ofClauses`).  Where no name is unknown there is nothing to assert, and the policy does
not matter (`ofClauses_of_known`).
-/

namespace Presence

open Formula ClauseForm

variable {policy policy' : Policy} {t t' : NameTable} {clause : Formula} {clauses : List Formula}
  {ls : Clause} {numbered : Numbered} {n : String} {tries : Nat}

/-! ## Unknown names of a clause -/

/-- The names of a clause without a number, each once, in the order of first occurrence. -/
def unknownNames (t : NameTable) (clause : Formula) : List String :=
  (clause.atoms.filter fun n => !t.contains n).eraseDups

theorem mem_unknownNames :
    n ∈ unknownNames t clause ↔ n ∈ clause.atoms ∧ t.contains n = false := by
  rw [unknownNames, List.mem_eraseDups, List.mem_filter, Bool.not_eq_true']

theorem unknownNames_eq_nil (h : ∀ n ∈ clause.atoms, t.contains n = true) :
    unknownNames t clause = [] := by
  refine List.eq_nil_iff_forall_not_mem.2 fun n hn => ?_
  obtain ⟨hatom, hcontains⟩ := mem_unknownNames.1 hn
  rw [h n hatom] at hcontains
  cases hcontains

/-- Once the first of them is added, the others are left. -/
theorem unknownNames_eq_cons (h : clause.atoms.find? (fun n => !t.contains n) = some n) :
    unknownNames t clause = n :: unknownNames (t.add n) clause := by
  rw [← List.head?_filter] at h
  obtain ⟨rest, hrest⟩ := List.head?_eq_some_iff.1 h
  have hleft : (clause.atoms.filter fun m => !(t.add n).contains m) =
      rest.filter fun m => m != n := by
    simp only [NameTable.not_contains_add]
    rw [← List.filter_filter, hrest, List.filter_cons_of_neg (by simp)]
  rw [unknownNames, unknownNames, hleft, hrest, List.eraseDups_cons]
  rfl

/-! ## Clauses -/

/-- A clause has its literals by the table with its unknown names, and what the policy asserts of
these comes before. -/
theorem within_eq_ok (h : Numbered.within policy clause tries t = .ok numbered) :
    numbered.table = (unknownNames t clause).foldl NameTable.add t ∧
    ∃ ls, clause.literals numbered.table = .ok ls ∧
      numbered.clauses = (unknownNames t clause).flatMap (fun n =>
        Numbered.assertion policy (numbered.table.numberOf n)) ++ [ls] := by
  fun_induction Numbered.within policy clause tries t generalizing numbered with
  | case1 tries t literals hliterals =>
      cases h
      rw [unknownNames_eq_nil (contains_of_literals hliterals)]
      exact ⟨rfl, literals, hliterals, rfl⟩
  | case2 => cases h
  | case3 => cases h
  | case4 => cases h
  | case5 t cause hliterals tries number hpolicy =>
      rename_i ih
      obtain ⟨rest, hrest, h⟩ := bind_eq_ok_iff.1 h
      cases h
      obtain ⟨htable, ls, hls, hclauses⟩ := ih hrest
      have hnumber : rest.table.number? cause.name = some number := by
        refine (allocates_of_within hrest).extends_table.keeps _ _ ?_
        rw [NameTable.number?_add, if_pos rfl]
      rw [unknownNames_eq_cons (find?_of_literals hliterals)]
      refine ⟨htable, ls, hls, ?_⟩
      rw [List.flatMap_cons, NameTable.numberOf_of_number? hnumber, List.append_assoc, ← hclauses]

theorem within_of_known (policy : Policy) (tries : Nat)
    (h : ∀ n ∈ clause.atoms, t.contains n = true) :
    Numbered.within policy clause tries t = (clause.literals t).map fun ls => ⟨[ls], [], t⟩ := by
  rw [Numbered.within]
  cases hliterals : clause.literals t with
  | ok ls => rfl
  | error cause =>
      cases cause with
      | constraint cause => rfl
      | unknownName cause =>
          have hfind := find?_of_literals hliterals
          have hunknown := List.find?_some hfind
          rw [h _ (List.mem_of_find?_eq_some hfind)] at hunknown
          cases hunknown

/-! ## Rows of clauses -/

/-- Without unknown names all policies come to the same. -/
theorem ofClauses_of_known (policy policy' : Policy)
    (h : ∀ n, Mentions clauses n → t.contains n = true) :
    Numbered.ofClauses policy t clauses = Numbered.ofClauses policy' t clauses := by
  induction clauses with
  | nil => rfl
  | cons clause clauses ih =>
      have hclause : ∀ n ∈ clause.atoms, t.contains n = true := fun n hn =>
        h n (mentions_cons.2 (Or.inl hn))
      have hclauses := ih fun n hn => h n (mentions_cons.2 (Or.inr hn))
      rw [Numbered.ofClauses, Numbered.ofClauses, Numbered.ofClause, Numbered.ofClause,
        within_of_known policy _ hclause, within_of_known policy' _ hclause]
      cases clause.literals t with
      | error cause => rfl
      | ok ls =>
          simp only [Except.map, bind, Except.bind]
          rw [hclauses]

/-- A literal of the clause is of the variable of the name. -/
def Clause.Uses (t : NameTable) (n : String) (c : Clause) : Prop :=
  ∃ l ∈ c, t.number? n = some l.number

/-- The unit clause that the variable of the name is false. -/
def NameTable.denial (t : NameTable) (n : String) : Clause := [⟨t.numberOf n, false⟩]

/-- The second row is the first with a negative unit clause for the variable of each name.  It
stands in front of the first clause that uses the variable, with only others of its kind
between. -/
inductive Denies (t : NameTable) : List String → List Clause → List Clause → Prop where
  /-- There is nothing to deny. -/
  | nil : Denies t [] [] []
  /-- What the first clause uses is denied there, and the rest is later. -/
  | cons {here later : List String} {c : Clause} {opened closed : List Clause}
      (used : ∀ n ∈ here, c.Uses t n) (unused : ∀ n ∈ later, ¬c.Uses t n)
      (rest : Denies t later opened closed) :
      Denies t (here ++ later) (c :: opened)
        (here.map t.denial ++ c :: closed)

/-- The literals have the numbers of the atoms. -/
theorem map_number_of_literals (h : clause.literals t = .ok ls) :
    clause.atoms.map t.number? = ls.map fun l => some l.number := by
  rw [← map_fst_signedAtoms, List.map_map, ← List.forall₂_eq_eq_eq, List.forall₂_map_left_iff,
    List.forall₂_map_right_iff]
  exact (forall₂_of_literals h).imp fun _ _ hliteral => hliteral.1

/-- The variables of a clause are those of its atoms, also in a larger table. -/
theorem uses_iff_of_literals (h : clause.literals t = .ok ls) (hextends : t.Extends t') :
    Clause.Uses t' n ls ↔ n ∈ clause.atoms := by
  have hnumbers := map_number_of_literals h
  constructor
  · rintro ⟨l, hl, hn⟩
    have hmem : some l.number ∈ clause.atoms.map t.number? := by
      rw [hnumbers]
      exact List.mem_map_of_mem hl
    obtain ⟨m, hm, hnumber⟩ := List.mem_map.1 hmem
    rwa [← NameTable.number?_inj (hextends.keeps m _ hnumber) hn]
  · intro hn
    have hmem : t.number? n ∈ ls.map fun l => some l.number := by
      rw [← hnumbers]
      exact List.mem_map_of_mem hn
    obtain ⟨l, hl, hnumber⟩ := List.mem_map.1 hmem
    exact ⟨l, hl, hextends.keeps n _ hnumber.symm⟩

/-- Numbers of known names stay the same. -/
theorem NameTable.Extends.numberOf_eq (h : t.Extends t') (hn : t.contains n = true) :
    t'.numberOf n = t.numberOf n := by
  obtain ⟨k, hk⟩ := NameTable.contains_iff.1 hn
  rw [NameTable.numberOf_of_number? hk, NameTable.numberOf_of_number? (h.keeps n k hk)]

/-- A clause is numbered by the same table in an open and in a closed world, where its unknown
names are denied in front of it. -/
theorem ofClause_closedWorld {opened closed : Numbered}
    (hopened : Numbered.ofClause .openWorld t clause = .ok opened)
    (hclosed : Numbered.ofClause .closedWorld t clause = .ok closed) :
    closed.table = opened.table ∧ ∃ ls, clause.literals opened.table = .ok ls ∧
      opened.clauses = [ls] ∧
      closed.clauses = (unknownNames t clause).map opened.table.denial ++ [ls] := by
  obtain ⟨htable, ls, hls, hclauses⟩ := within_eq_ok hopened
  obtain ⟨htable', ls', hls', hclauses'⟩ := within_eq_ok hclosed
  rw [htable', ← htable] at hls' hclauses'
  rw [hls, Except.ok.injEq] at hls'
  subst hls'
  refine ⟨htable'.trans htable.symm, ls, hls, ?_, ?_⟩
  · have hnothing : (unknownNames t clause).flatMap (fun n =>
        Numbered.assertion .openWorld (opened.table.numberOf n)) = [] :=
      List.flatMap_eq_nil_iff.2 fun _ _ => rfl
    rw [hclauses, hnothing, List.nil_append]
  · rw [hclauses', List.map_eq_flatMap]
    rfl

/-- The names that a clause adds are not unknown to the clauses after it. -/
theorem mem_append_unknownNames_iff {first : Numbered} {later : List String}
    (hfirst : Numbers policy t [clause] first)
    (hlater : ∀ n, n ∈ later ↔ Mentions clauses n ∧ first.table.contains n = false) (n : String) :
    n ∈ unknownNames t clause ++ later ↔
      Mentions (clause :: clauses) n ∧ t.contains n = false := by
  have hcontains : first.table.contains n = true ↔ n ∈ clause.atoms ∨ t.contains n = true := by
    rw [hfirst.contains, mentions_cons]
    simp [Mentions]
  rw [List.mem_append, mem_unknownNames, hlater, mentions_cons, ← Bool.not_eq_true,
    ← Bool.not_eq_true, hcontains]
  tauto

/-- In a closed world the clauses are those of an open world with a denial for each unknown name,
and the tables are the same. -/
theorem denies_of_ofClauses {opened closed : Numbered}
    (hopened : Numbered.ofClauses .openWorld t clauses = .ok opened)
    (hclosed : Numbered.ofClauses .closedWorld t clauses = .ok closed) :
    closed.table = opened.table ∧ ∃ names : List String, names.Nodup ∧
      (∀ n, n ∈ names ↔ Mentions clauses n ∧ t.contains n = false) ∧
      Denies opened.table names opened.clauses closed.clauses := by
  induction clauses generalizing t opened closed with
  | nil =>
      cases hopened
      cases hclosed
      exact ⟨rfl, [], List.nodup_nil, by simp [Mentions], .nil⟩
  | cons clause clauses ih =>
      obtain ⟨first, hfirst, hopened⟩ := bind_eq_ok_iff.1 hopened
      obtain ⟨rest, hrest, hopened⟩ := bind_eq_ok_iff.1 hopened
      cases hopened
      obtain ⟨first', hfirst', hclosed⟩ := bind_eq_ok_iff.1 hclosed
      obtain ⟨rest', hrest', hclosed⟩ := bind_eq_ok_iff.1 hclosed
      cases hclosed
      obtain ⟨htable, ls, hls, hclauses, hclauses'⟩ := ofClause_closedWorld hfirst hfirst'
      rw [htable] at hrest'
      obtain ⟨hrestTable, later, hnodup, hlater, hdenies⟩ := ih hrest hrest'
      have hextends := (allocates_of_ofClauses hrest).extends_table
      have hknown : ∀ n ∈ unknownNames t clause, first.table.contains n = true := fun n hn =>
        contains_of_literals hls n (mem_unknownNames.1 hn).1
      refine ⟨hrestTable, unknownNames t clause ++ later, ?_,
        mem_append_unknownNames_iff (numbers_of_within hfirst) hlater, ?_⟩
      · refine List.nodup_append.2 ⟨nodup_eraseDups _, hnodup, fun n hn m hm => ?_⟩
        rintro rfl
        have hnew := ((hlater n).1 hm).2
        rw [hknown n hn] at hnew
        cases hnew
      · have hdenials : (unknownNames t clause).map first.table.denial =
            (unknownNames t clause).map rest.table.denial :=
          List.map_congr_left fun n hn => by
            rw [NameTable.denial, NameTable.denial, hextends.numberOf_eq (hknown n hn)]
        simp only [hclauses, hclauses', hdenials, List.append_assoc, List.singleton_append]
        refine .cons (fun n hn => ?_) (fun n hn huses => ?_) hdenies
        · exact (uses_iff_of_literals hls hextends).2 (mem_unknownNames.1 hn).1
        -- A name of the first clause has a number by then.
        · have hnew := ((hlater n).1 hn).2
          rw [contains_of_literals hls n ((uses_iff_of_literals hls hextends).1 huses)] at hnew
          cases hnew

end Presence
