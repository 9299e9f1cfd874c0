import Presence.Checker.Basic
import Presence.Proofs.ClauseForm.Freshness
import Presence.Proofs.ClauseForm.Numbering
import Presence.Proofs.Search

/-!
# Correctness of checks

Whatever engine a check of a condition against a feature model is given, an
answer of the check is right if those of the engine are: it is `true` exactly if
some assignment of the variables makes all clauses of the model and the condition
hold (`isSatisfiable_iff_exists`).  A check without an answer has a fault of the
encoding or one of the engine.  With an engine that always answers and without a
time limit it is the former (`isSatisfiable_eq_error_iff`).

Names that the encoding adds have numbers above the mark of the model, so their
values can be chosen without any effect on the clauses of the model.  What the
conversion introduces must not be a name of the model either.
-/

namespace Presence

open Clause (AllHold allHold_append)

/-! ## Conflicts -/

namespace Conflict

variable {v : Nat → Bool} {forced : List Literal} {cs : List Clause} {conflict : Conflict}

/-- Where clauses hold, the literals that they force do. -/
theorem holds_of_mem_units (h : AllHold v cs) {l : Literal} (hl : l ∈ units cs) :
    l.holds v = true := by
  obtain ⟨c, hc, hunit⟩ := List.mem_filterMap.1 hl
  split at hunit
  next k =>
    cases hunit
    rw [← Clause.holds_singleton]
    exact h _ hc
  next => cases hunit

/-- Clauses with a conflict do not hold together with the forced literals. -/
theorem not_allHold_of_find? (hforced : ∀ l ∈ forced, l.holds v = true)
    (h : find? forced cs = some conflict) : ¬AllHold v cs := by
  intro hall
  fun_induction find? forced cs with
  | case1 => cases h
  | case2 => exact Clause.not_holds_nil (hall [] List.mem_cons_self)
  | case3 forced l cs hopposed =>
      have hl := hall [l] List.mem_cons_self
      rw [Clause.holds_singleton] at hl
      have hnegate := hforced l.negate (List.contains_iff_mem.1 hopposed)
      rw [Literal.holds_negate, hl] at hnegate
      cases hnegate
  | case4 forced l cs _ ih =>
      have hl := hall [l] List.mem_cons_self
      rw [Clause.holds_singleton] at hl
      refine ih (fun k hk => ?_) h fun c hc => hall c (List.mem_cons_of_mem _ hc)
      rcases List.mem_cons.1 hk with rfl | hk
      · exact hl
      · exact hforced k hk
  | case5 forced c cs _ _ ih => exact ih hforced h fun d hd => hall d (List.mem_cons_of_mem _ hd)

end Conflict

/-! ## Encodings -/

/-- The names of a condition have the values of their numbers in the model.  In a
closed world the names that the model does not know are false. -/
structure FeatureModel.Interprets (m : FeatureModel) (policy : Policy) (f : Formula)
    (v : Nat → Bool) (a : String → Bool) : Prop where
  /-- Names of the model have the values of their numbers. -/
  known : ∀ n ∈ f.atoms, ∀ k, m.names.number? n = some k → a n = v k
  /-- All others are false in a closed world. -/
  unknown : policy = .closedWorld → ∀ n ∈ f.atoms, m.names.contains n = false → a n = false

namespace Checker

variable {c : Checker} {f : Formula} {policy : Policy} {query : FeatureModel} {b : Bool}

/-- A query is made of the clause form of the condition, numbered by the table of
the model once it has the introduced names. -/
structure Encodes (c : Checker) (f : Formula) (policy : Policy) (form : ClauseForm)
    (t : NameTable) (numbered : Numbered) : Prop where
  form_eq : ClauseForm.ofFormula c.config.strategy c.config.maxDepth (some c.model.names) f =
    .ok form
  table_eq : t = form.supply.issued.reverse.foldl NameTable.add c.model.names
  numbers : Numbers policy t form.clauses numbered

/-- Numbered clauses with room for all names of the table. -/
def ofNumbered (numbered : Numbered) : FeatureModel where
  cnf := (Cnf.ofClauses numbered.clauses).reserve numbered.table.mark
  names := numbered.table

/-- An encoding is a conversion and a numbering of what it comes to. -/
theorem encode_result (c : Checker) (f : Formula) (policy : Policy) :
    (c.encode f policy).result =
      match ClauseForm.ofFormula c.config.strategy c.config.maxDepth (some c.model.names) f with
      | .error cause => .error (.constraint cause)
      | .ok form =>
          match Numbered.ofClauses policy
              (form.supply.issued.reverse.foldl NameTable.add c.model.names) form.clauses with
          | .error cause => .error (.ofNumbering cause)
          | .ok numbered => .ok (ofNumbered numbered) := by
  rw [encode]
  cases hform : ClauseForm.ofFormula c.config.strategy c.config.maxDepth (some c.model.names) f with
  | error cause => rfl
  | ok form =>
      have htable := ClauseForm.ofFormula_table hform
      simp only [htable, Option.map_some, Option.getD_some, Noted.after]
      cases Numbered.ofClauses policy
          (form.supply.issued.reverse.foldl NameTable.add c.model.names) form.clauses with
      | error cause => rfl
      | ok numbered => rfl

theorem encode_eq_ok (h : (c.encode f policy).result = .ok query) :
    ∃ form t numbered, c.Encodes f policy form t numbered ∧
      query.cnf.clauses.toList = numbered.clauses := by
  rw [encode_result] at h
  split at h
  next => cases h
  next form hform =>
    split at h
    next => cases h
    next numbered hnumbered =>
      cases h
      exact ⟨form, _, numbered, ⟨hform, rfl, numbers_of_ofClauses hnumbered⟩,
        Cnf.toList_ofClauses _⟩

namespace Encodes

variable {form : ClauseForm} {t : NameTable} {numbered : Numbered} {v : Nat → Bool}
  {a : String → Bool} {n : String}

theorem contains_iff (h : c.Encodes f policy form t numbered) :
    t.contains n = true ↔ n ∈ form.supply.issued ∨ c.model.names.contains n = true := by
  rw [h.table_eq, NameTable.contains_foldl_add, List.mem_reverse]

theorem grows (h : c.Encodes f policy form t numbered) :
    c.model.names.Extends numbered.table := by
  refine NameTable.Extends.trans ?_ h.numbers.grows
  rw [h.table_eq]
  exact NameTable.extends_foldl_add _ _

/-- Where the numbered clauses hold, the condition does. -/
theorem exists_interprets (h : c.Encodes f policy form t numbered)
    (hpseudo : ClauseForm.PseudoFree f) (hv : AllHold v numbered.clauses) :
    ∃ a, c.model.Interprets policy f v a ∧ f.eval a = true := by
  have hreads := numbered.table.readsOff_readNames v fun _ => false
  obtain ⟨hform, hallows⟩ := (h.numbers.holds v _ hreads).1 hv
  refine ⟨_, ⟨fun n _ => hreads.of_extends h.grows n, fun hpolicy n hn hcontains => ?_⟩,
    ClauseForm.eval_of_allHold h.form_eq hform⟩
  refine hallows hpolicy n ((ClauseForm.ofFormula_mentions_iff h.form_eq n).2 (Or.inl hn)) ?_
  rw [← Bool.not_eq_true, h.contains_iff, not_or, Bool.not_eq_true]
  exact ⟨ClauseForm.not_mem_issued h.form_eq hpseudo hn, hcontains⟩

/-- With unknown names as faults, the model has all names of a condition that has an encoding. -/
theorem contains_of_mem_atoms (h : c.Encodes f policy form t numbered)
    (hpseudo : ClauseForm.PseudoFree f) (hpolicy : policy = .fail) (hn : n ∈ f.atoms) :
    c.model.names.contains n = true := by
  have hmentions := (ClauseForm.ofFormula_mentions_iff h.form_eq n).2 (Or.inl hn)
  have hcontains := h.contains_iff.1 (h.numbers.known hpolicy n hmentions)
  exact hcontains.resolve_left (ClauseForm.not_mem_issued h.form_eq hpseudo hn)

/-- Where the condition and the clauses of the model hold, values for all further
numbers can be chosen so that the numbered clauses hold, too. -/
theorem exists_allHold (h : c.Encodes f policy form t numbered)
    (hnew : ∀ n ∈ form.supply.issued, ClauseForm.IsNew (some c.model.names) f n)
    (hpseudo : ClauseForm.PseudoFree f)
    (hmark : c.model.cnf.variableCount ≤ c.model.names.mark)
    (hv : c.model.cnf.holds v = true) (ha : c.model.Interprets policy f v a)
    (hf : f.eval a = true) :
    ∃ w, c.model.cnf.holds w = true ∧ AllHold w numbered.clauses := by
  -- Names of the model that the condition does not use have the values of their numbers, too.
  have heval : f.eval (c.model.names.readNames v a) = true := by
    rw [← hf]
    refine Formula.eval_congr fun n hn => ?_
    cases hk : c.model.names.number? n with
    | none => rw [NameTable.readNames, hk, Option.map_none, Option.getD_none]
    | some k => rw [c.model.names.readsOff_readNames v a n k hk, ha.known n hn k hk]
  obtain ⟨b, hb, hform⟩ := ClauseForm.exists_allHold_of_eval h.form_eq hpseudo heval
  refine ⟨numbered.table.readNumbers b v, ?_, ?_⟩
  -- Up to the count of its variables the model has all names of these numbers.
  · refine (Cnf.holds_congr fun k hk => ?_).1 hv
    rw [NameTable.readNumbers, h.grows.name?_eq (Nat.le_trans hk hmark)]
    cases hn : c.model.names.name? k with
    | none => rfl
    | some n =>
        rw [Option.map_some, Option.getD_some]
        have hnumber := NameTable.number?_eq_some_iff.2 hn
        rw [hb n fun hmem => ?_, c.model.names.readsOff_readNames v a n k hnumber]
        have hcontains := (hnew n hmem).2 _ rfl
        rw [NameTable.contains_of_number? hnumber] at hcontains
        cases hcontains
  · refine (h.numbers.holds _ _ (NameTable.readsOff_readNumbers _ b v)).2 ⟨hform, ?_⟩
    intro hpolicy n hn hcontains
    rw [← Bool.not_eq_true, h.contains_iff, not_or, Bool.not_eq_true] at hcontains
    have hatom := ((ClauseForm.ofFormula_mentions_iff h.form_eq n).1 hn).resolve_right hcontains.1
    rw [hb n hcontains.1, NameTable.readNames_of_not_contains hcontains.2]
    exact ha.unknown hpolicy n hatom hcontains.2

end Encodes

/-! ## Checks -/

variable {engine : Engine} {cause : CheckError}

/-- What is said of the clauses was said by the engine, with or without a time limit.  Otherwise
there is a fault of the engine or of its worker, and if it is not the engine that failed then there
is a limit. -/
theorem solve_cases (c : Checker) (engine : Engine) (query : Option Cnf) :
    (∃ b, (c.solve engine query).result = .ok b ∧
      engine.solve (c.model.cnf :: query.toList) = .ok b) ∨
    ∃ cause, (c.solve engine query).result = .error cause ∧ cause.isOfEngine = true ∧
      (engine.Answers → c.config.timeout ≠ 0) := by
  generalize hforms : c.model.cnf :: query.toList = forms
  have hanswer : (∃ b, (engine.solve forms).mapError CheckError.engine = .ok b ∧
      engine.solve forms = .ok b) ∨
      ∃ cause, (engine.solve forms).mapError CheckError.engine = .error cause ∧
        cause.isOfEngine = true ∧ (engine.Answers → c.config.timeout ≠ 0) := by
    cases hengine : engine.solve forms with
    | ok b => exact Or.inl ⟨b, rfl, rfl⟩
    | error cause =>
        refine Or.inr ⟨_, rfl, rfl, fun hanswers => ?_⟩
        obtain ⟨b, hb⟩ := hanswers forms
        cases hengine.symm.trans hb
  by_cases htimeout : c.config.timeout = 0
  · rw [solve, Config.timeLimit?, if_pos htimeout, hforms]
    exact hanswer
  · rw [solve, Config.timeLimit?, if_neg htimeout, hforms]
    simp only
    cases engine.course c.config.timeout forms with
    | notStarted message => exact Or.inr ⟨_, rfl, rfl, fun _ => htimeout⟩
    | inTime => exact hanswer
    | late => exact Or.inr ⟨_, rfl, rfl, fun _ => htimeout⟩
    | lost => exact Or.inr ⟨_, rfl, rfl, fun _ => htimeout⟩

theorem isSatisfiable_of_error (h : (c.encode f policy).result = .error cause) (engine : Engine) :
    (c.isSatisfiable engine f policy).result = .error cause := by
  simp only [isSatisfiable, Noted.after, h]

/-- A check that has its clauses answers that they conflict, or it asks the engine. -/
theorem isSatisfiable_of_ok (h : (c.encode f policy).result = .ok query) (engine : Engine) :
    ((c.isSatisfiable engine f policy).result = .ok false ∧
      ∀ v, c.model.cnf.holds v = true → ¬query.cnf.holds v = true) ∨
    (c.isSatisfiable engine f policy).result = (c.solve engine (some query.cnf)).result := by
  simp only [isSatisfiable, Noted.after, h]
  split
  next conflict hconflict =>
    refine Or.inl ⟨rfl, fun v hv hquery => ?_⟩
    refine Conflict.not_allHold_of_find? (fun l hl => ?_) hconflict (Cnf.holds_iff.1 hquery)
    exact Conflict.holds_of_mem_units (Cnf.holds_iff.1 hv) hl
  next => exact Or.inr rfl

/-- A check that has its clauses fails only as the engine or its worker does. -/
theorem isSatisfiable_of_ok_cases (h : (c.encode f policy).result = .ok query) (engine : Engine) :
    (∃ b, (c.isSatisfiable engine f policy).result = .ok b) ∨
    ∃ cause, (c.isSatisfiable engine f policy).result = .error cause ∧ cause.isOfEngine = true ∧
      (engine.Answers → c.config.timeout ≠ 0) := by
  rcases isSatisfiable_of_ok h engine with ⟨hfalse, _⟩ | hsolve
  · exact Or.inl ⟨false, hfalse⟩
  · rw [hsolve]
    exact (solve_cases c engine (some query.cnf)).imp_left fun ⟨b, hb, _⟩ => ⟨b, hb⟩

/-- With an engine that always answers and without a time limit only the encoding can fail. -/
theorem isSatisfiable_eq_error_iff (hanswers : engine.Answers) (htimeout : c.config.timeout = 0) :
    (c.isSatisfiable engine f policy).result = .error cause ↔
      (c.encode f policy).result = .error cause := by
  cases hencode : (c.encode f policy).result with
  | error other => simp only [isSatisfiable_of_error hencode, Except.error.injEq]
  | ok query =>
      rcases isSatisfiable_of_ok_cases hencode engine with ⟨b, hb⟩ | ⟨_, _, _, hlimited⟩
      · rw [hb]
        exact iff_of_false nofun nofun
      · exact absurd htimeout (hlimited hanswers)

/-- The answer of a check says whether the clauses of the model and of the
encoding can hold together. -/
theorem isSatisfiable_eq_ok (hengine : engine.AnswersCorrectly)
    (h : (c.isSatisfiable engine f policy).result = .ok b) :
    ∃ form t numbered, c.Encodes f policy form t numbered ∧
      (b = true ↔ ∃ v, c.model.cnf.holds v = true ∧ AllHold v numbered.clauses) := by
  cases hencode : (c.encode f policy).result with
  | error cause =>
      rw [isSatisfiable_of_error hencode] at h
      cases h
  | ok query =>
      obtain ⟨form, t, numbered, hencodes, hclauses⟩ := encode_eq_ok hencode
      refine ⟨form, t, numbered, hencodes, ?_⟩
      simp only [← hclauses, ← Cnf.holds_iff]
      rcases isSatisfiable_of_ok hencode engine with ⟨hfalse, hconflict⟩ | hsolve
      · rw [hfalse] at h
        cases h
        exact iff_of_false Bool.false_ne_true fun ⟨v, hv, hquery⟩ => hconflict v hv hquery
      · rw [hsolve] at h
        rcases solve_cases c engine (some query.cnf) with ⟨b', hb', hanswer⟩ | ⟨cause, hcause, _⟩
        · cases h.symm.trans hb'
          rw [hengine.isRight _ b hanswer]
          simp
        · cases h.symm.trans hcause

/-- The answer is right, as long as the atoms for truth values are new and the mark covers all
variables of the model. -/
theorem isSatisfiable_eq_true_iff (hengine : engine.AnswersCorrectly)
    (hmark : c.model.cnf.variableCount ≤ c.model.names.mark)
    (hpseudo : f.containsConstants = true →
      ∀ n, n = pseudoTrue ∨ n = pseudoFalse → n ∉ f.atoms ∧ c.model.names.contains n = false)
    (h : (c.isSatisfiable engine f policy).result = .ok b) :
    (b = true ↔ ∃ v, c.model.cnf.holds v = true ∧
      ∃ a, c.model.Interprets policy f v a ∧ f.eval a = true) ∧
    (policy = .fail → ∀ n ∈ f.atoms, c.model.names.contains n = true) := by
  obtain ⟨form, t, numbered, hencodes, hb⟩ := isSatisfiable_eq_ok hengine h
  have hpseudoNew : ∀ n, n = pseudoTrue ∨ n = pseudoFalse → f.containsConstants = true →
      ClauseForm.IsNew (some c.model.names) f n := by
    intro n hn hconstants
    obtain ⟨hatoms, hcontains⟩ := hpseudo hconstants n hn
    refine ⟨hatoms, fun t ht => ?_⟩
    cases ht
    exact hcontains
  have htrue := hpseudoNew pseudoTrue (Or.inl rfl)
  have hfalse := hpseudoNew pseudoFalse (Or.inr rfl)
  have hfree : ClauseForm.PseudoFree f := fun hc => ⟨(htrue hc).1, (hfalse hc).1⟩
  have hnew := (ClauseForm.issued_isNew_iff hencodes.form_eq).2 fun hc => ⟨htrue hc, hfalse hc⟩
  refine ⟨hb.trans ⟨fun ⟨v, hv, hall⟩ => ?_, fun ⟨v, hv, a, ha, hf⟩ => ?_⟩, fun hfail n hn => ?_⟩
  · exact ⟨v, hv, hencodes.exists_interprets hfree hall⟩
  · exact hencodes.exists_allHold hnew hfree hmark hv ha hf
  · exact hencodes.contains_of_mem_atoms hfree hfail hn

end Checker

/-- Reading marks all numbers of the clauses as used. -/
theorem FeatureModel.variableCount_le_mark {stem : String} {bytes : List UInt8} {m : FeatureModel}
    (h : parse stem bytes = .ok m) : m.cnf.variableCount ≤ m.names.mark := by
  rw [parse] at h
  cases hread : Reader.readAll { stem } bytes with
  | error cause =>
      rw [hread] at h
      cases h
  | ok r =>
      rw [hread] at h
      cases h
      exact Nat.le_max_right ..

/-- A check against a model that was read is right if the engine is: it answers `true` exactly if
the clauses of the model hold under an assignment of numbers under which the
condition holds as well.  Without a time limit it answers whenever there is an encoding. -/
theorem Checker.isSatisfiable_iff_exists {engine : Engine} (hengine : engine.AnswersCorrectly)
    {stem : String} {bytes : List UInt8} {m : FeatureModel}
    (hparse : FeatureModel.parse stem bytes = .ok m) (config : Config) {f : Formula}
    (policy : Policy)
    (hpseudo : f.containsConstants = true →
      ∀ n, n = pseudoTrue ∨ n = pseudoFalse → n ∉ f.atoms ∧ m.names.contains n = false) :
    (∀ b, (Checker.isSatisfiable ⟨m, config⟩ engine f policy).result = .ok b →
      (b = true ↔
        ∃ v, m.cnf.holds v = true ∧ ∃ a, m.Interprets policy f v a ∧ f.eval a = true) ∧
      (policy = .fail → ∀ n ∈ f.atoms, m.names.contains n = true)) ∧
    (config.timeout = 0 → ∀ cause,
      (Checker.isSatisfiable ⟨m, config⟩ engine f policy).result = .error cause ↔
        (Checker.encode ⟨m, config⟩ f policy).result = .error cause) := by
  refine ⟨fun b h => ?_, fun htimeout cause => ?_⟩
  · exact isSatisfiable_eq_true_iff hengine (FeatureModel.variableCount_le_mark hparse) hpseudo h
  · exact isSatisfiable_eq_error_iff hengine.answers htimeout

/-- A model in which `A` implies the variable 3 and `B` implies `A`. -/
def impliesExample : List UInt8 := "c 1 A\nc 2 B\np cnf 3 2\n1 -2 0\n-1 3 0\n".toUTF8.toList

/-- The condition `(B && 1) || (A && C)`, of which the model knows all names but one. -/
def conditionExample : Formula :=
  .disjunction (.conjunction (.atom "B") (.constant true)) (.conjunction (.atom "A") (.atom "C"))

theorem Checker.isSatisfiable_iff_exists_example :
    ∃ m, FeatureModel.parse "" impliesExample = .ok m ∧
      (Checker.isSatisfiable ⟨m, {}⟩ Search.engine conditionExample .closedWorld).result =
        .ok true ∧
      ∃ v, m.cnf.holds v = true ∧
        ∃ a, m.Interprets .closedWorld conditionExample v a ∧ conditionExample.eval a = true := by
  have hrun : (FeatureModel.parse "" impliesExample).toOption.map (fun m =>
      (m.names.contains pseudoTrue, m.names.contains pseudoFalse,
        (Checker.isSatisfiable ⟨m, {}⟩ Search.engine conditionExample .closedWorld).result)) =
      some (false, false, .ok true) := by decide +kernel
  obtain ⟨m, hparse, hrun⟩ := exists_of_map_toOption hrun
  simp only [Prod.mk.injEq] at hrun
  obtain ⟨htrue, hfalse, hresult⟩ := hrun
  have hpseudo : conditionExample.containsConstants = true →
      ∀ n, n = pseudoTrue ∨ n = pseudoFalse →
        n ∉ conditionExample.atoms ∧ m.names.contains n = false := by
    rintro _ n (rfl | rfl)
    · exact ⟨by decide, htrue⟩
    · exact ⟨by decide, hfalse⟩
  have hright := isSatisfiable_iff_exists Search.engine_answersCorrectly hparse {} .closedWorld
    hpseudo
  exact ⟨m, hparse, hresult, (hright.1 true hresult).1.1 rfl⟩

end Presence
