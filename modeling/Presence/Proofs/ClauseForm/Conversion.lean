import Presence.ClauseForm.Conversion
import Presence.Proofs.Except
import Presence.Proofs.Formula.Meaning
import Presence.Proofs.Formula.Walk
import Presence.Proofs.ClauseForm.Supply

/-!
# Derivations of clause form

A run that brings a formula into clause form is a *derivation* (`Converts`): one
constructor per case of the conversion, without the limit on nesting, and with
the names that the run drew from its supply.  What holds of all clause forms is
proved by induction on derivations.

Two facts are needed everywhere.  The names of a derivation are drawn from the
supply in order (`Converts.draws`).  The atoms of the clauses are those of the
formula and those drawn (`Converts.mem_atoms_iff`), so that no atom of the
formula is lost.
-/

namespace Presence.ClauseForm

open Formula

/-- The two strategies treat a disjunction of these sides differently. -/
def IsReplaced (strategy : Strategy) (l r : Formula) : Prop :=
  strategy = .replacing ∧ l.isCompound = true ∧ r.isCompound = true

/-- The formula has the clause form, for which the names were drawn from the supply. -/
inductive Converts (strategy : Strategy) :
    Supply → Formula → List String → ClauseForm → Prop where
  /-- A literal is a clause. -/
  | literal {s f} (shape : f.outermost = .literal) : Converts strategy s f [] ⟨[f], s⟩
  /-- Two negations cancel. -/
  | doubleNegation {s f g names form} (shape : f.outermost = .doubleNegation g)
      (inner : Converts strategy s g names form) : Converts strategy s f names form
  /-- The clauses of both sides hold together. -/
  | both {s f l r names more left right} (shape : f.outermost = .both l r)
      (first : Converts strategy s l names left)
      (second : Converts strategy left.supply r more right) :
      Converts strategy s f (names ++ more) ⟨left.clauses ++ right.clauses, right.supply⟩
  /-- A new atom chooses between the sides. -/
  | replaced {s f l r names more left right} (shape : f.outermost = .either l r)
      (isReplaced : IsReplaced strategy l r)
      (first : Converts strategy s.fresh.2 l names left)
      (second : Converts strategy left.supply r more right) :
      Converts strategy s f (s.fresh.1 :: (names ++ more))
        ⟨distribute [negation (atom s.fresh.1)] left.clauses ++
          distribute [atom s.fresh.1] right.clauses, right.supply⟩
  /-- All clauses of the sides are joined. -/
  | joined {s f l r names more left right} (shape : f.outermost = .either l r)
      (notReplaced : ¬IsReplaced strategy l r)
      (first : Converts strategy s l names left)
      (second : Converts strategy left.supply r more right) :
      Converts strategy s f (names ++ more)
        ⟨distribute left.clauses right.clauses, right.supply⟩

variable {strategy : Strategy} {maxDepth : Nat} {s : Supply} {f : Formula}
  {names : List String} {form : ClauseForm}

/-- Every result of a run has a derivation. -/
theorem converts_of_clausesOf {levels : Nat}
    (h : clausesOf strategy maxDepth levels s f = .ok form) :
    ∃ names, Converts strategy s f names form := by
  -- A double negation uses up two levels.
  induction levels using Nat.strongRecOn generalizing s f form with
  | ind levels ih =>
  cases levels with
  | zero => cases h
  | succ levels =>
      rw [clausesOf] at h
      cases hf : f.outermost with
      | literal =>
          simp only [hf, Except.ok.injEq] at h
          subst h
          exact ⟨[], .literal hf⟩
      | truth value => simp [hf] at h
      | doubleNegation g =>
          simp only [hf] at h
          cases levels with
          | zero => cases h
          | succ levels =>
              obtain ⟨names, hg⟩ := ih levels (by omega) h
              exact ⟨names, .doubleNegation hf hg⟩
      | both l r =>
          simp only [hf] at h
          obtain ⟨left, hl, h⟩ := bind_eq_ok_iff.1 h
          obtain ⟨right, hr, h⟩ := bind_eq_ok_iff.1 h
          cases h
          obtain ⟨names, hl⟩ := ih levels (by omega) hl
          obtain ⟨more, hr⟩ := ih levels (by omega) hr
          exact ⟨names ++ more, .both hf hl hr⟩
      | either l r =>
          simp only [hf] at h
          split at h
          next hreplaced =>
            obtain ⟨left, hl, h⟩ := bind_eq_ok_iff.1 h
            obtain ⟨right, hr, h⟩ := bind_eq_ok_iff.1 h
            cases h
            obtain ⟨names, hl⟩ := ih levels (by omega) hl
            obtain ⟨more, hr⟩ := ih levels (by omega) hr
            exact ⟨s.fresh.1 :: (names ++ more), .replaced hf hreplaced hl hr⟩
          next hjoined =>
            obtain ⟨left, hl, h⟩ := bind_eq_ok_iff.1 h
            obtain ⟨right, hr, h⟩ := bind_eq_ok_iff.1 h
            cases h
            obtain ⟨names, hl⟩ := ih levels (by omega) hl
            obtain ⟨more, hr⟩ := ih levels (by omega) hr
            exact ⟨names ++ more, .joined hf hjoined hl hr⟩

namespace Converts

/-- The names are drawn from the supply in order. -/
theorem draws (h : Converts strategy s f names form) : s.Draws names form.supply := by
  induction h with
  | literal _ => exact .refl _
  | doubleNegation _ _ ih => exact ih
  | both _ _ _ ihl ihr => exact ihl.trans ihr
  | replaced _ _ _ _ ihl ihr => exact (Supply.Draws.fresh _).trans (ihl.trans ihr)
  | joined _ _ _ _ ihl ihr => exact ihl.trans ihr

/-- Distributing needs no names. -/
theorem names_eq_nil (h : Converts .distributive s f names form) : names = [] := by
  induction h with
  | literal _ => rfl
  | doubleNegation _ _ ih => exact ih
  | both _ _ _ ihl ihr => rw [ihl, ihr, List.append_nil]
  | replaced _ isReplaced _ _ _ _ => cases isReplaced.1
  | joined _ _ _ _ ihl ihr => rw [ihl, ihr, List.append_nil]

end Converts

/-! ## Atoms of clauses -/

/-- The name is at an atom of one of the clauses. -/
def Mentions (clauses : List Formula) (name : String) : Prop := ∃ c ∈ clauses, name ∈ c.atoms

theorem mentions_cons {c : Formula} {clauses : List Formula} {name : String} :
    Mentions (c :: clauses) name ↔ name ∈ c.atoms ∨ Mentions clauses name := by
  simp [Mentions]

theorem mentions_append {left right : List Formula} {name : String} :
    Mentions (left ++ right) name ↔ Mentions left name ∨ Mentions right name := by
  simp [Mentions, or_and_right, exists_or]

/-- Joined clauses have a clause of each list. -/
theorem mem_distribute {left right : List Formula} {c : Formula} :
    c ∈ distribute left right ↔ ∃ l ∈ left, ∃ r ∈ right, disjunction l r = c := by
  simp only [distribute, List.mem_flatMap, List.mem_map]

/-- No atom is lost as long as both lists have clauses. -/
theorem mentions_distribute {left right : List Formula} {name : String}
    (hl : left ≠ []) (hr : right ≠ []) :
    Mentions (distribute left right) name ↔ Mentions left name ∨ Mentions right name := by
  constructor
  · rintro ⟨c, hc, hn⟩
    obtain ⟨l, hl, r, hr, rfl⟩ := mem_distribute.1 hc
    rcases List.mem_append.1 hn with hn | hn
    · exact Or.inl ⟨l, hl, hn⟩
    · exact Or.inr ⟨r, hr, hn⟩
  · obtain ⟨l₀, hl₀⟩ := List.exists_mem_of_ne_nil left hl
    obtain ⟨r₀, hr₀⟩ := List.exists_mem_of_ne_nil right hr
    rintro (⟨l, hl, hn⟩ | ⟨r, hr, hn⟩)
    · exact ⟨disjunction l r₀, mem_distribute.2 ⟨l, hl, r₀, hr₀, rfl⟩,
        List.mem_append_left _ hn⟩
    · exact ⟨disjunction l₀ r, mem_distribute.2 ⟨l₀, hl₀, r, hr, rfl⟩,
        List.mem_append_right _ hn⟩

theorem distribute_ne_nil {left right : List Formula} (hl : left ≠ []) (hr : right ≠ []) :
    distribute left right ≠ [] := by
  obtain ⟨l, hl⟩ := List.exists_mem_of_ne_nil left hl
  obtain ⟨r, hr⟩ := List.exists_mem_of_ne_nil right hr
  exact List.ne_nil_of_mem (mem_distribute.2 ⟨l, hl, r, hr, rfl⟩)

namespace Converts

theorem clauses_ne_nil (h : Converts strategy s f names form) : form.clauses ≠ [] := by
  induction h with
  | literal _ => exact List.cons_ne_nil _ _
  | doubleNegation _ _ ih => exact ih
  | both _ _ _ ihl _ => exact List.append_ne_nil_of_left_ne_nil ihl _
  | replaced _ _ _ _ ihl _ =>
      exact List.append_ne_nil_of_left_ne_nil (distribute_ne_nil (List.cons_ne_nil _ _) ihl) _
  | joined _ _ _ _ ihl ihr => exact distribute_ne_nil ihl ihr

/-- The clauses mention the atoms of the formula and the names that were drawn. -/
theorem mentions_iff (h : Converts strategy s f names form) (n : String) :
    Mentions form.clauses n ↔ n ∈ f.atoms ∨ n ∈ names := by
  induction h with
  | literal _ => simp [Mentions]
  | doubleNegation shape _ ih =>
      rw [ih, outermost_doubleNegation shape]
      simp [atoms]
  | both shape _ _ ihl ihr =>
      rw [mentions_append, ihl, ihr, atoms_of_both shape, List.mem_append, List.mem_append,
        or_or_or_comm]
  | replaced shape _ first second ihl ihr =>
      rw [mentions_append, mentions_distribute (List.cons_ne_nil _ _) first.clauses_ne_nil,
        mentions_distribute (List.cons_ne_nil _ _) second.clauses_ne_nil, ihl, ihr,
        atoms_of_either shape, List.mem_append, List.mem_cons, List.mem_append]
      simp only [Mentions, List.mem_singleton, exists_eq_left, atoms]
      rw [← or_or_distrib_left, or_or_or_comm, or_left_comm]
  | joined shape _ first second ihl ihr =>
      rw [mentions_distribute first.clauses_ne_nil second.clauses_ne_nil, ihl, ihr,
        atoms_of_either shape, List.mem_append, List.mem_append, or_or_or_comm]

end Converts

/-! ## Whole formulas -/

/-- The names that stand for truth values if the formula has any, the last first. -/
def pseudoNames (f : Formula) : List String :=
  if f.containsConstants then [pseudoFalse, pseudoTrue] else []

variable {table : Option NameTable}

/-- A clause form of a formula without truth values has a derivation.  That of
any other begins with the two clauses that force the atoms for truth values. -/
theorem ofFormula_cases (h : ofFormula strategy maxDepth table f = .ok form) :
    (f.containsConstants = false ∧
      ∃ names, Converts strategy (startSupply table f) f names form) ∨
    (f.containsConstants = true ∧
      ∃ names inner, Converts strategy (pseudoSupply table f) f.withoutConstants names inner ∧
        form = ⟨atom pseudoTrue :: negation (atom pseudoFalse) :: inner.clauses,
          inner.supply⟩) := by
  rw [ofFormula] at h
  split at h
  next => cases h
  next =>
    cases hc : f.containsConstants with
    | false =>
        simp only [hc, Bool.false_eq_true, ↓reduceIte] at h
        exact Or.inl ⟨rfl, converts_of_clausesOf h⟩
    | true =>
        simp only [hc, ↓reduceIte] at h
        obtain ⟨inner, hinner, h⟩ := bind_eq_ok_iff.1 h
        cases h
        obtain ⟨names, hinner⟩ := converts_of_clausesOf hinner
        exact Or.inr ⟨rfl, names, inner, hinner, rfl⟩

/-- A name of the formula is in use from the start. -/
theorem isUsed_startSupply {n : String} :
    (startSupply table f).isUsed n = true ↔
      n ∈ f.atoms ∨ ∃ t, table = some t ∧ t.contains n = true := by
  rw [Supply.isUsed_iff, startSupply, Std.TreeSet.contains_ofList, List.contains_iff_mem,
    mem_names]

theorem isUsed_pseudoSupply {n : String} :
    (pseudoSupply table f).isUsed n = true ↔
      n = pseudoFalse ∨ n = pseudoTrue ∨ n ∈ f.atoms ∨
        ∃ t, table = some t ∧ t.contains n = true := by
  rw [pseudoSupply, Supply.isUsed_register, Supply.isUsed_register, isUsed_startSupply]

theorem mem_issued_pseudoSupply {n : String} :
    n ∈ (pseudoSupply table f).issued ↔ n = pseudoTrue ∨ n = pseudoFalse := by
  rw [or_comm]
  simp [pseudoSupply, startSupply, Supply.register]

/-- Replacing truth values keeps all atoms and adds none but their own. -/
theorem mem_atoms_withoutConstants {n : String} :
    n ∈ f.withoutConstants.atoms ∨ n = pseudoTrue ∨ n = pseudoFalse ↔
      n ∈ f.atoms ∨ n = pseudoTrue ∨ n = pseudoFalse := by
  induction f with
  | constant value => cases value <;> simp +contextual [withoutConstants, atoms]
  | atom name => rfl
  | negation f ih => exact ih
  | conjunction l r ihl ihr | disjunction l r ihl ihr =>
      rw [withoutConstants, atoms, atoms, List.mem_append, List.mem_append, or_or_distrib_right,
        ihl, ihr, ← or_or_distrib_right]

/-- The names of a formula without its truth values are in use before the conversion. -/
theorem isUsed_of_withoutConstants {n : String} (hn : n ∈ f.withoutConstants.atoms) :
    (pseudoSupply table f).isUsed n = true := by
  rw [isUsed_pseudoSupply]
  rcases mem_atoms_withoutConstants.1 (Or.inl hn) with hn | rfl | rfl
  · exact Or.inr (Or.inr (Or.inl hn))
  · exact Or.inr (Or.inl rfl)
  · exact Or.inl rfl

/-- The clauses mention the names of the formula and those that were introduced. -/
theorem ofFormula_mentions_iff (h : ofFormula strategy maxDepth table f = .ok form) (n : String) :
    Mentions form.clauses n ↔ n ∈ f.atoms ∨ n ∈ form.supply.issued := by
  rcases ofFormula_cases h with ⟨_, names, hconverts⟩ | ⟨_, names, inner, hconverts, rfl⟩
  · rw [hconverts.mentions_iff, hconverts.draws.issued, startSupply, List.append_nil,
      List.mem_reverse]
  · have hclauses : Mentions (atom pseudoTrue :: negation (atom pseudoFalse) :: inner.clauses) n ↔
        (n ∈ f.withoutConstants.atoms ∨ n = pseudoTrue ∨ n = pseudoFalse) ∨ n ∈ names := by
      rw [mentions_cons, mentions_cons, hconverts.mentions_iff, atoms, atoms, atoms,
        List.mem_singleton, List.mem_singleton, ← or_assoc, ← or_assoc,
        or_comm (b := n ∈ f.withoutConstants.atoms)]
    have hissued : n ∈ inner.supply.issued ↔ n ∈ names ∨ n = pseudoTrue ∨ n = pseudoFalse := by
      rw [hconverts.draws.issued, List.mem_append, List.mem_reverse, mem_issued_pseudoSupply]
    rw [hclauses, hissued, mem_atoms_withoutConstants, or_comm (a := n ∈ names), or_assoc]

/-- The table learns the introduced names in order. -/
theorem ofFormula_table (h : ofFormula strategy maxDepth table f = .ok form) :
    form.supply.table =
      table.map fun t => form.supply.issued.reverse.foldl NameTable.add t := by
  rcases ofFormula_cases h with ⟨_, names, hconverts⟩ | ⟨_, names, inner, hconverts, rfl⟩
  · rw [hconverts.draws.table, hconverts.draws.issued]
    simp [startSupply]
  · rw [hconverts.draws.table, hconverts.draws.issued]
    simp [pseudoSupply, startSupply, Supply.register, Function.comp_def]

end Presence.ClauseForm
