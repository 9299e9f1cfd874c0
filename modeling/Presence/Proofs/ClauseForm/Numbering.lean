import Presence.ClauseForm.Numbering
import Presence.Proofs.Cnf
import Presence.Proofs.ClauseForm.Equisatisfiable
import Presence.Proofs.NameTable

/-!
# Meaning of numbered clauses

An assignment of names *reads off* an assignment of numbers if every named
number has the value of its name.  Under such a pair of assignments a clause and
its literals have the same value, and the same goes for rows of clauses that are
numbered one after the other, beside what the policy asserts of unknown names
(`numbers_of_ofClauses`).
-/

namespace Presence

open Formula ClauseForm

/-- Names have the values of their numbers. -/
def NameTable.ReadsOff (t : NameTable) (v : Nat → Bool) (a : String → Bool) : Prop :=
  ∀ n k, t.number? n = some k → a n = v k

theorem NameTable.ReadsOff.of_extends {t t' : NameTable} {v : Nat → Bool} {a : String → Bool}
    (h : t'.ReadsOff v a) (hextends : t.Extends t') : t.ReadsOff v a :=
  fun n k hk => h n k (hextends.keeps n k hk)

/-- The values of numbers at their names, and other values at all other names. -/
def NameTable.readNames (t : NameTable) (v : Nat → Bool) (a : String → Bool) : String → Bool :=
  fun n => ((t.number? n).map v).getD (a n)

/-- The values of names at their numbers, and other values at all other numbers. -/
def NameTable.readNumbers (t : NameTable) (a : String → Bool) (v : Nat → Bool) : Nat → Bool :=
  fun k => ((t.name? k).map a).getD (v k)

theorem NameTable.readsOff_readNames (t : NameTable) (v : Nat → Bool) (a : String → Bool) :
    t.ReadsOff v (t.readNames v a) := by
  intro n k hk
  rw [readNames, hk, Option.map_some, Option.getD_some]

theorem NameTable.readsOff_readNumbers (t : NameTable) (a : String → Bool) (v : Nat → Bool) :
    t.ReadsOff (t.readNumbers a v) a := by
  intro n k hk
  rw [readNumbers, number?_eq_some_iff.1 hk, Option.map_some, Option.getD_some]

variable {t : NameTable} {n : String} {positive : Bool}

theorem NameTable.readNames_of_not_contains (h : t.contains n = false) (v : Nat → Bool)
    (a : String → Bool) : t.readNames v a n = a n := by
  rw [contains, Option.isSome_eq_false_iff, Option.isNone_iff_eq_none] at h
  rw [readNames, h, Option.map_none, Option.getD_none]

/-! ## Literals -/

theorem NameTable.literal_eq_ok_iff {l : Literal} :
    t.literal n positive = .ok l ↔ ∃ k, t.number? n = some k ∧ l = ⟨k, positive⟩ := by
  rw [literal, lookup]
  cases t.number? n with
  | none => simp
  | some k => simp [eq_comm]

theorem NameTable.not_contains_of_literal {cause : UnknownName}
    (h : t.literal n positive = .error (.unknownName cause)) :
    cause.name = n ∧ t.contains n = false := by
  rw [literal, lookup] at h
  rw [contains]
  cases hn : t.number? n with
  | none =>
      rw [hn] at h
      cases h
      exact ⟨rfl, rfl⟩
  | some k =>
      rw [hn] at h
      cases h

/-- The clause has the literals of the formulas on the stack: their names have
numbers, and it holds where one of them does. -/
structure HasLiterals (t : NameTable) (stack : List Formula) (ls : Clause) : Prop where
  contains : ∀ n, Mentions stack n → t.contains n = true
  holds : ∀ v a, t.ReadsOff v a → (ls.holds v = true ↔ ∃ f ∈ stack, f.eval a = true)

namespace HasLiterals

variable {stack : List Formula} {ls : Clause} {f l r : Formula} {k : Nat}

theorem nil (t : NameTable) : HasLiterals t [] [] where
  contains := fun _ ⟨_, hc, _⟩ => absurd hc List.not_mem_nil
  holds := by simp [Clause.holds]

/-- A formula over one name that has a number becomes the literal in front. -/
theorem cons (h : HasLiterals t stack ls) (hk : t.number? n = some k) (hatoms : f.atoms = [n])
    (heval : ∀ a, f.eval a = (a n == positive)) :
    HasLiterals t (f :: stack) (⟨k, positive⟩ :: ls) where
  contains := by
    intro m hm
    rw [mentions_cons, hatoms, List.mem_singleton] at hm
    rcases hm with rfl | hm
    · exact NameTable.contains_of_number? hk
    · exact h.contains m hm
  holds := by
    intro v a hreads
    have hl : Literal.holds v ⟨k, positive⟩ = f.eval a := by
      rw [Literal.holds, heval, hreads n k hk]
    have hcons : Clause.holds v (⟨k, positive⟩ :: ls) = (f.eval a || ls.holds v) := by
      rw [← hl]
      rfl
    rw [hcons, Bool.or_eq_true, h.holds v a hreads, List.exists_mem_cons_iff]

/-- Both sides of a disjunction lie on the stack in its place. -/
theorem disjunction (h : HasLiterals t (l :: r :: stack) ls) :
    HasLiterals t (l.disjunction r :: stack) ls where
  contains := by
    intro m hm
    refine h.contains m ?_
    rw [mentions_cons, atoms, List.mem_append, or_assoc] at hm
    rwa [mentions_cons, mentions_cons]
  holds := by
    intro v a hreads
    rw [h.holds v a hreads, List.exists_mem_cons_iff, List.exists_mem_cons_iff,
      List.exists_mem_cons_iff, eval, Bool.or_eq_true, or_assoc]

end HasLiterals

variable {whole clause : Formula} {stack clauses : List Formula} {ls : Clause} {cause : UnknownName}

theorem hasLiterals_of_literalsFrom (h : literalsFrom t whole stack = .ok ls) :
    HasLiterals t stack ls := by
  fun_induction literalsFrom t whole stack generalizing ls with
  | case1 =>
      cases h
      exact .nil t
  | case2 stack name ih =>
      obtain ⟨l, hl, h⟩ := bind_eq_ok_iff.1 h
      obtain ⟨rest, hrest, h⟩ := bind_eq_ok_iff.1 h
      obtain ⟨k, hk, rfl⟩ := NameTable.literal_eq_ok_iff.1 hl
      cases h
      exact (ih hrest).cons hk rfl fun a => by rw [eval, beq_true]
  | case3 stack name ih =>
      obtain ⟨l, hl, h⟩ := bind_eq_ok_iff.1 h
      obtain ⟨rest, hrest, h⟩ := bind_eq_ok_iff.1 h
      obtain ⟨k, hk, rfl⟩ := NameTable.literal_eq_ok_iff.1 hl
      cases h
      exact (ih hrest).cons hk rfl fun a => by rw [eval, eval, beq_false]
  | case4 stack l r ih => exact (ih h).disjunction
  | case5 => cases h

/-- The fault that a name has no number is about a name that has none. -/
theorem unknownName_of_literalsFrom
    (h : literalsFrom t whole stack = .error (.unknownName cause)) :
    Mentions stack cause.name ∧ t.contains cause.name = false := by
  fun_induction literalsFrom t whole stack with
  | case1 => cases h
  | case2 stack name ih | case3 stack name ih =>
      rw [mentions_cons]
      rcases bind_eq_error_iff.1 h with h | ⟨l, _, h⟩
      · obtain ⟨hname, hcontains⟩ := NameTable.not_contains_of_literal h
        rw [hname]
        exact ⟨Or.inl (List.mem_singleton_self _), hcontains⟩
      · rcases bind_eq_error_iff.1 h with h | ⟨rest, _, h⟩
        · exact ⟨Or.inr (ih h).1, (ih h).2⟩
        · cases h
  | case4 stack l r ih =>
      obtain ⟨hmentions, hcontains⟩ := ih h
      refine ⟨?_, hcontains⟩
      rw [mentions_cons, mentions_cons] at hmentions
      rwa [mentions_cons, atoms, List.mem_append, or_assoc]
  | case5 => cases h

/-! ## Rows of clauses -/

/-- What a policy lets hold of the names of clauses that have no number: in a
closed world they are false. -/
def Allows (policy : Policy) (t : NameTable) (clauses : List Formula) (a : String → Bool) : Prop :=
  policy = .closedWorld → ∀ n, Mentions clauses n → t.contains n = false → a n = false

/-- The clauses are numbered by the table once their names are added, with what
the policy asserts of these. -/
structure Numbers (policy : Policy) (t : NameTable) (clauses : List Formula)
    (numbered : Numbered) : Prop where
  /-- The table has grown. -/
  grows : t.Extends numbered.table
  /-- It has the names of the clauses beside those it had. -/
  contains : ∀ n, numbered.table.contains n = true ↔ Mentions clauses n ∨ t.contains n = true
  /-- If unknown names are a fault then there are none. -/
  known : policy = .fail → ∀ n, Mentions clauses n → t.contains n = true
  /-- The numbered clauses hold where the clauses and the assertions do. -/
  holds : ∀ v a, numbered.table.ReadsOff v a →
    (Clause.AllHold v numbered.clauses ↔ AllHold a clauses ∧ Allows policy t clauses a)

variable {policy : Policy} {numbered : Numbered}

theorem numbers_of_literals (h : clause.literals t = .ok ls) :
    Numbers policy t [clause] ⟨[ls], [], t⟩ := by
  have hliterals := hasLiterals_of_literalsFrom h
  refine ⟨.refl t, fun n => ?_, fun _ => hliterals.contains, fun v a hreads => ?_⟩
  · exact ⟨Or.inr, fun h => h.elim (hliterals.contains n) id⟩
  · have hallows : Allows policy t [clause] a := by
      intro _ n hn hcontains
      rw [hliterals.contains n hn] at hcontains
      cases hcontains
    rw [and_iff_left hallows, allHold_singleton, Clause.AllHold, List.forall_mem_singleton,
      hliterals.holds v a hreads]
    simp

/-- In a closed world an unknown name of the clauses is false, and the others are
as if it was known. -/
theorem allows_closedWorld_iff (hn : Mentions clauses n) (hcontains : t.contains n = false)
    {a : String → Bool} :
    Allows .closedWorld t clauses a ↔ a n = false ∧ Allows .closedWorld (t.add n) clauses a := by
  have hadd : ∀ m, (t.add n).contains m = false ↔ m ≠ n ∧ t.contains m = false := by
    intro m
    rw [← Bool.not_eq_true, NameTable.contains_add, not_or, Bool.not_eq_true]
  refine ⟨fun h => ⟨h rfl n hn hcontains, fun _ m hm hmc => ?_⟩, fun h _ m hm hmc => ?_⟩
  · exact h rfl m hm ((hadd m).1 hmc).2
  · by_cases hmn : m = n
    · rw [hmn]
      exact h.1
    · exact h.2 rfl m hm ((hadd m).2 ⟨hmn, hmc⟩)

/-- A name that is added first leaves less to add. -/
theorem Numbers.cons_added (hpolicy : policy ≠ .fail) (hn : Mentions clauses n)
    (hcontains : t.contains n = false) (h : Numbers policy (t.add n) clauses numbered) :
    Numbers policy t clauses
      ⟨Numbered.assertion policy (t.numberOf n) ++ numbered.clauses,
        (n, t.numberOf n) :: numbered.added, numbered.table⟩ := by
  have hgrows := (NameTable.Extends.add t n).trans h.grows
  refine ⟨hgrows, fun m => ?_, fun hfail => absurd hfail hpolicy, fun v a hreads => ?_⟩
  · rw [h.contains, NameTable.contains_add, ← or_assoc]
    refine ⟨?_, ?_⟩
    · rintro ((hm | rfl) | hm)
      · exact Or.inl hm
      · exact Or.inl hn
      · exact Or.inr hm
    · rintro (hm | hm)
      · exact Or.inl (Or.inl hm)
      · exact Or.inr hm
  · have hvalue : a n = v (t.numberOf n) := by
      refine hreads n _ (h.grows.keeps n _ ?_)
      rw [NameTable.number?_add, if_pos rfl]
    rw [Clause.allHold_append, h.holds v a hreads]
    cases policy with
    | fail => exact absurd rfl hpolicy
    | openWorld => simp [Numbered.assertion, Clause.AllHold, Allows]
    | closedWorld =>
        have hassertion : Clause.AllHold v (Numbered.assertion .closedWorld (t.numberOf n)) ↔
            a n = false := by
          simp [Numbered.assertion, Clause.AllHold, Clause.holds, Literal.holds, hvalue]
        rw [hassertion, allows_closedWorld_iff hn hcontains, and_left_comm]

theorem numbers_of_within {tries : Nat} (h : Numbered.within policy clause tries t = .ok numbered) :
    Numbers policy t [clause] numbered := by
  fun_induction Numbered.within policy clause tries t generalizing numbered with
  | case1 tries t literals hliterals =>
      cases h
      exact numbers_of_literals hliterals
  | case2 => cases h
  | case3 => cases h
  | case4 => cases h
  | case5 t cause hliterals tries number hpolicy =>
      rename_i ih
      obtain ⟨rest, hrest, h⟩ := bind_eq_ok_iff.1 h
      cases h
      obtain ⟨hmentions, hcontains⟩ := unknownName_of_literalsFrom hliterals
      exact (ih hrest).cons_added hpolicy hmentions hcontains

/-- The names of a clause in front count as known to the clauses after it. -/
theorem Numbers.allows_cons {first : Numbered} {a : String → Bool}
    (hfirst : Numbers policy t [clause] first) :
    Allows policy t (clause :: clauses) a ↔
      Allows policy t [clause] a ∧ Allows policy first.table clauses a := by
  refine ⟨fun h => ⟨fun hpolicy n hn => h hpolicy n ?_, fun hpolicy n hn hcontains => ?_⟩,
    fun ⟨h, h'⟩ hpolicy n hn hcontains => ?_⟩
  · obtain ⟨c, hc, hn⟩ := hn
    rw [List.mem_singleton.1 hc] at hn
    exact mentions_cons.2 (Or.inl hn)
  · refine h hpolicy n (mentions_cons.2 (Or.inr hn)) ?_
    rw [← Bool.not_eq_true] at hcontains ⊢
    exact fun ht => hcontains (hfirst.grows.contains ht)
  · rcases mentions_cons.1 hn with hn | hn
    · exact h hpolicy n ⟨clause, List.mem_singleton_self _, hn⟩ hcontains
    · cases htable : first.table.contains n with
      | false => exact h' hpolicy n hn htable
      | true =>
          refine h hpolicy n (((hfirst.contains n).1 htable).resolve_right ?_) hcontains
          rw [hcontains]
          exact Bool.false_ne_true

/-- Clauses are numbered one after the other. -/
theorem Numbers.cons {first rest : Numbered} (hfirst : Numbers policy t [clause] first)
    (hrest : Numbers policy first.table clauses rest) :
    Numbers policy t (clause :: clauses)
      ⟨first.clauses ++ rest.clauses, first.added ++ rest.added, rest.table⟩ := by
  have hmentions : ∀ n, Mentions (clause :: clauses) n ↔
      Mentions [clause] n ∨ Mentions clauses n := by
    intro n
    rw [← List.singleton_append, mentions_append]
  refine ⟨hfirst.grows.trans hrest.grows, fun n => ?_, fun hpolicy n hn => ?_,
    fun v a hreads => ?_⟩
  · rw [hrest.contains, hfirst.contains, hmentions, or_left_comm, or_assoc]
  · rcases (hmentions n).1 hn with hn | hn
    · exact hfirst.known hpolicy n hn
    · rcases (hfirst.contains n).1 (hrest.known hpolicy n hn) with hn | hn
      · exact hfirst.known hpolicy n hn
      · exact hn
  · rw [Clause.allHold_append, hfirst.holds v a (hreads.of_extends hrest.grows),
      hrest.holds v a hreads, and_and_and_comm, ← hfirst.allows_cons, allHold_singleton,
      allHold_cons]

/-- Whatever has been numbered is numbered by the table that it leaves. -/
theorem numbers_of_ofClauses (h : Numbered.ofClauses policy t clauses = .ok numbered) :
    Numbers policy t clauses numbered := by
  induction clauses generalizing t numbered with
  | nil =>
      cases h
      refine ⟨.refl t, fun n => ?_, fun _ n hn => ?_, fun v a _ => ?_⟩
      · simp [Mentions]
      · simp [Mentions] at hn
      · simp [Clause.AllHold, AllHold, Allows, Mentions]
  | cons clause clauses ih =>
      obtain ⟨first, hfirst, h⟩ := bind_eq_ok_iff.1 h
      obtain ⟨rest, hrest, h⟩ := bind_eq_ok_iff.1 h
      cases h
      exact (numbers_of_within hfirst).cons (ih hrest)

end Presence
