import Presence.Proofs.ClauseForm.Conversion
import Mathlib.Logic.Function.Basic

/-!
# Clause form keeps models

A formula holds under an assignment exactly if its clauses hold under some
assignment that differs only at the names that the conversion introduced
(`ofFormula_keepsModels`).

From the clauses to the formula (`Converts.sound`) it does not matter which
names were drawn.  In the other direction (`Converts.complete`) the values of
drawn names are set one after the other: each chooses a side of its disjunction.
Since a name is new when it is drawn, setting it changes neither the atoms of
the formula nor clauses that were made before.
-/

namespace Presence.ClauseForm

open Formula

/-- All clauses hold. -/
def AllHold (value : String → Bool) (clauses : List Formula) : Prop :=
  ∀ c ∈ clauses, c.eval value = true

variable {left right clauses : List Formula} {a b : String → Bool} {n : String}

theorem allHold_singleton {c : Formula} : AllHold a [c] ↔ c.eval a = true := by
  simp [AllHold]

theorem allHold_cons {c : Formula} :
    AllHold a (c :: clauses) ↔ c.eval a = true ∧ AllHold a clauses :=
  List.forall_mem_cons

theorem allHold_append : AllHold a (left ++ right) ↔ AllHold a left ∧ AllHold a right :=
  List.forall_mem_append

/-- Joined clauses hold exactly if those of one side do. -/
theorem allHold_distribute :
    AllHold a (distribute left right) ↔ AllHold a left ∨ AllHold a right := by
  constructor
  · intro h
    by_cases hl : AllHold a left
    · exact Or.inl hl
    -- A clause on the left that does not hold leaves all work to the right side.
    · obtain ⟨l, hl, hfalse⟩ : ∃ l ∈ left, l.eval a ≠ true := by simpa [AllHold] using hl
      refine Or.inr fun r hr => ?_
      have hlr := h (disjunction l r) (mem_distribute.2 ⟨l, hl, r, hr, rfl⟩)
      rw [eval, Bool.or_eq_true] at hlr
      exact hlr.resolve_left hfalse
  · rintro h c hc
    obtain ⟨l, hl, r, hr, rfl⟩ := mem_distribute.1 hc
    rw [eval, Bool.or_eq_true]
    exact h.imp (fun h => h l hl) (fun h => h r hr)

/-- Whether clauses hold depends on the names that they mention. -/
theorem AllHold.congr (h : AllHold a clauses) (hab : ∀ n, Mentions clauses n → a n = b n) :
    AllHold b clauses := by
  intro c hc
  rw [← h c hc]
  exact eval_congr fun n hn => (hab n ⟨c, hc, hn⟩).symm

namespace Converts

variable {strategy : Strategy} {s : Supply} {f : Formula} {names : List String} {form : ClauseForm}

/-- A formula holds whenever its clauses do. -/
theorem sound (h : Converts strategy s f names form) (hform : AllHold b form.clauses) :
    f.eval b = true := by
  induction h with
  | literal _ => exact allHold_singleton.1 hform
  | doubleNegation shape _ ih =>
      rw [outermost_doubleNegation shape, eval, eval, Bool.not_not]
      exact ih hform
  | both shape _ _ ihl ihr =>
      obtain ⟨hl, hr⟩ := allHold_append.1 hform
      rw [eval_of_both shape, ihl hl, ihr hr, Bool.and_self]
  | @replaced s f l r _ _ _ _ shape _ _ _ ihl ihr =>
      obtain ⟨hl, hr⟩ := allHold_append.1 hform
      rw [allHold_distribute, allHold_singleton] at hl hr
      rw [eval_of_either shape, Bool.or_eq_true]
      cases hz : b s.fresh.1 with
      | true => exact Or.inl (ihl (hl.resolve_left (by simp [eval, hz])))
      | false => exact Or.inr (ihr (hr.resolve_left (by simp [eval, hz])))
  | joined shape _ _ _ ihl ihr =>
      rw [eval_of_either shape, Bool.or_eq_true]
      exact (allHold_distribute.1 hform).imp ihl ihr

/-- Setting drawn names does not change a formula whose atoms were in use. -/
theorem eval_eq_of_draws {s' : Supply} (h : s.Draws names s')
    (hused : ∀ n ∈ f.atoms, s.isUsed n = true) (hb : ∀ n, n ∉ names → b n = a n) :
    f.eval b = f.eval a :=
  eval_congr fun n hn => hb n (h.not_mem (hused n hn))

/-- Setting a new name does not change a formula whose atoms were in use. -/
theorem eval_update_fresh (hused : ∀ n ∈ f.atoms, s.isUsed n = true) (value : Bool) :
    f.eval (Function.update a s.fresh.1 value) = f.eval a := by
  refine eval_eq_of_draws (Supply.Draws.fresh s) hused fun n hn => ?_
  exact Function.update_of_ne (List.ne_of_not_mem_cons hn) _ _

/-- The clauses mention names in use only. -/
theorem isUsed_of_mentions (h : Converts strategy s f names form)
    (hused : ∀ n ∈ f.atoms, s.isUsed n = true) (hn : Mentions form.clauses n) :
    form.supply.isUsed n = true := by
  rcases (h.mentions_iff n).1 hn with hn | hn
  · exact h.draws.isUsed (hused n hn)
  · exact h.draws.isUsed_of_mem hn

/-- An assignment under which a formula holds can be changed at the drawn names
so that the clauses hold. -/
theorem complete (h : Converts strategy s f names form)
    (hused : ∀ n ∈ f.atoms, s.isUsed n = true) (hf : f.eval a = true) :
    ∃ b, (∀ n, n ∉ names → b n = a n) ∧ AllHold b form.clauses := by
  induction h generalizing a with
  | literal _ => exact ⟨a, fun _ _ => rfl, allHold_singleton.2 hf⟩
  | doubleNegation shape _ ih =>
      rw [outermost_doubleNegation shape] at hf hused
      rw [eval, eval, Bool.not_not] at hf
      exact ih hused hf
  | both shape first second ihl ihr =>
      rw [atoms_of_both shape, List.forall_mem_append] at hused
      rw [eval_of_both shape, Bool.and_eq_true] at hf
      obtain ⟨b, hb, hleft⟩ := ihl hused.1 hf.1
      rw [← eval_eq_of_draws first.draws hused.2 hb] at hf
      obtain ⟨c, hc, hright⟩ := ihr (fun n hn => first.draws.isUsed (hused.2 n hn)) hf.2
      refine ⟨c, fun n hn => ?_, allHold_append.2 ⟨hleft.congr fun n hn => ?_, hright⟩⟩
      · rw [List.mem_append, not_or] at hn
        rw [hc n hn.2, hb n hn.1]
      -- What the left clauses mention was in use before the right side drew names.
      · exact (hc n (second.draws.not_mem (first.isUsed_of_mentions hused.1 hn))).symm
  | @replaced s f l r names more _ _ shape _ first second ihl ihr =>
      rw [atoms_of_either shape, List.forall_mem_append] at hused
      rw [eval_of_either shape, Bool.or_eq_true] at hf
      have hdraws := Supply.Draws.fresh s
      have hz := hdraws.isUsed_of_mem (List.mem_singleton_self _)
      rcases hf with hl | hr
      · rw [← eval_update_fresh hused.1 true] at hl
        obtain ⟨b, hb, hleft⟩ := ihl (fun n hn => hdraws.isUsed (hused.1 n hn)) hl
        have hbz : b s.fresh.1 = true := by
          rw [hb _ (first.draws.not_mem hz), Function.update_self]
        refine ⟨b, fun n hn => ?_, allHold_append.2 ⟨?_, ?_⟩⟩
        · rw [List.mem_cons, List.mem_append, not_or, not_or] at hn
          rw [hb n hn.2.1, Function.update_of_ne hn.1]
        · exact allHold_distribute.2 (Or.inr hleft)
        · exact allHold_distribute.2 (Or.inl (allHold_singleton.2 hbz))
      · rw [← eval_update_fresh hused.2 false] at hr
        obtain ⟨b, hb, hright⟩ :=
          ihr (fun n hn => first.draws.isUsed (hdraws.isUsed (hused.2 n hn))) hr
        have hbz : b s.fresh.1 = false := by
          rw [hb _ (second.draws.not_mem (first.draws.isUsed hz)), Function.update_self]
        refine ⟨b, fun n hn => ?_, allHold_append.2 ⟨?_, ?_⟩⟩
        · rw [List.mem_cons, List.mem_append, not_or, not_or] at hn
          rw [hb n hn.2.2, Function.update_of_ne hn.1]
        · refine allHold_distribute.2 (Or.inl (allHold_singleton.2 ?_))
          rw [eval, eval, hbz, Bool.not_false]
        · exact allHold_distribute.2 (Or.inr hright)
  | joined shape _ first second ihl ihr =>
      rw [atoms_of_either shape, List.forall_mem_append] at hused
      rw [eval_of_either shape, Bool.or_eq_true] at hf
      rcases hf with hl | hr
      · obtain ⟨b, hb, hleft⟩ := ihl hused.1 hl
        refine ⟨b, fun n hn => hb n ?_, allHold_distribute.2 (Or.inl hleft)⟩
        exact fun hmem => hn (List.mem_append_left _ hmem)
      · obtain ⟨b, hb, hright⟩ := ihr (fun n hn => first.draws.isUsed (hused.2 n hn)) hr
        refine ⟨b, fun n hn => hb n ?_, allHold_distribute.2 (Or.inr hright)⟩
        exact fun hmem => hn (List.mem_append_right _ hmem)

end Converts

/-! ## Truth values -/

/-- With the right values of their atoms, truth values can be replaced. -/
theorem eval_withoutConstants (htrue : a pseudoTrue = true) (hfalse : a pseudoFalse = false)
    (f : Formula) : f.withoutConstants.eval a = f.eval a := by
  induction f with
  | constant value =>
      cases value with
      | true => exact htrue
      | false => exact hfalse
  | atom name => rfl
  | negation f ih => rw [withoutConstants, eval, eval, ih]
  | conjunction l r ihl ihr => rw [withoutConstants, eval, eval, ihl, ihr]
  | disjunction l r ihl ihr => rw [withoutConstants, eval, eval, ihl, ihr]

/-- The assignment with the right values of the atoms for truth values. -/
def setPseudo (a : String → Bool) : String → Bool :=
  Function.update (Function.update a pseudoTrue true) pseudoFalse false

theorem setPseudo_pseudoTrue (a : String → Bool) : setPseudo a pseudoTrue = true := by
  rw [setPseudo, Function.update_of_ne (by decide), Function.update_self]

theorem setPseudo_pseudoFalse (a : String → Bool) : setPseudo a pseudoFalse = false :=
  Function.update_self ..

theorem setPseudo_of_ne (htrue : n ≠ pseudoTrue) (hfalse : n ≠ pseudoFalse) :
    setPseudo a n = a n := by
  rw [setPseudo, Function.update_of_ne hfalse, Function.update_of_ne htrue]

/-! ## Whole formulas -/

/-- If the formula has truth values then it does not use the names of the atoms
that stand for them. -/
def PseudoFree (f : Formula) : Prop :=
  f.containsConstants = true → pseudoTrue ∉ f.atoms ∧ pseudoFalse ∉ f.atoms

instance (f : Formula) : Decidable (PseudoFree f) :=
  inferInstanceAs (Decidable (_ → _))

variable {strategy : Strategy} {maxDepth : Nat} {table : Option NameTable} {f : Formula}
  {form : ClauseForm}

/-- A formula holds whenever its clauses do, even if it uses the names of the
atoms for truth values. -/
theorem eval_of_allHold (h : ofFormula strategy maxDepth table f = .ok form)
    (hform : AllHold b form.clauses) : f.eval b = true := by
  rcases ofFormula_cases h with ⟨_, names, hconverts⟩ | ⟨_, names, inner, hconverts, rfl⟩
  · exact hconverts.sound hform
  · obtain ⟨htrue, hform⟩ := allHold_cons.1 hform
    obtain ⟨hfalse, hform⟩ := allHold_cons.1 hform
    rw [eval, eval, Bool.not_eq_true'] at hfalse
    rw [← eval_withoutConstants htrue hfalse]
    exact hconverts.sound hform

/-- An assignment under which a formula holds can be changed at the introduced
names so that its clauses hold. -/
theorem exists_allHold_of_eval (h : ofFormula strategy maxDepth table f = .ok form)
    (hpseudo : PseudoFree f) (hf : f.eval a = true) :
    ∃ b, (∀ n, n ∉ form.supply.issued → b n = a n) ∧ AllHold b form.clauses := by
  rcases ofFormula_cases h with ⟨_, names, hconverts⟩ | ⟨hconstants, names, inner, hconverts, rfl⟩
  · obtain ⟨b, hb, hform⟩ :=
      hconverts.complete (fun n hn => isUsed_startSupply.2 (Or.inl hn)) hf
    refine ⟨b, fun n hn => hb n fun hmem => hn ?_, hform⟩
    rw [hconverts.draws.issued]
    exact List.mem_append_left _ (List.mem_reverse.2 hmem)
  · obtain ⟨htrue, hfalse⟩ := hpseudo hconstants
    -- First the atoms for truth values are set, then the clauses of the rest are met.
    have hset : f.withoutConstants.eval (setPseudo a) = true := by
      rw [eval_withoutConstants (setPseudo_pseudoTrue a) (setPseudo_pseudoFalse a), ← hf]
      refine eval_congr fun n hn => setPseudo_of_ne ?_ ?_
      · exact fun heq => htrue (heq ▸ hn)
      · exact fun heq => hfalse (heq ▸ hn)
    obtain ⟨b, hb, hform⟩ := hconverts.complete (fun n => isUsed_of_withoutConstants) hset
    have hbTrue : b pseudoTrue = true := by
      rw [hb _ (hconverts.draws.not_mem (isUsed_pseudoSupply.2 (Or.inr (Or.inl rfl)))),
        setPseudo_pseudoTrue]
    have hbFalse : b pseudoFalse = false := by
      rw [hb _ (hconverts.draws.not_mem (isUsed_pseudoSupply.2 (Or.inl rfl))),
        setPseudo_pseudoFalse]
    refine ⟨b, fun n hn => ?_, allHold_cons.2 ⟨hbTrue, allHold_cons.2 ⟨?_, hform⟩⟩⟩
    · rw [hconverts.draws.issued, List.mem_append, not_or, List.mem_reverse,
        mem_issued_pseudoSupply, not_or] at hn
      rw [hb n hn.1, setPseudo_of_ne hn.2.1 hn.2.2]
    · rw [eval, eval, hbFalse, Bool.not_false]

/-- No name of the formula is introduced. -/
theorem not_mem_issued (h : ofFormula strategy maxDepth table f = .ok form)
    (hpseudo : PseudoFree f) (hn : n ∈ f.atoms) : n ∉ form.supply.issued := by
  rcases ofFormula_cases h with ⟨_, names, hconverts⟩ | ⟨hconstants, names, inner, hconverts, rfl⟩
  · rw [hconverts.draws.issued, startSupply, List.append_nil, List.mem_reverse]
    exact hconverts.draws.not_mem (isUsed_startSupply.2 (Or.inl hn))
  · obtain ⟨htrue, hfalse⟩ := hpseudo hconstants
    rw [hconverts.draws.issued, List.mem_append, List.mem_reverse, mem_issued_pseudoSupply, not_or]
    refine ⟨hconverts.draws.not_mem (isUsed_pseudoSupply.2 (Or.inr (Or.inr (Or.inl hn)))), ?_⟩
    rintro (rfl | rfl)
    · exact htrue hn
    · exact hfalse hn

/-- Distributing introduces no names but those for truth values. -/
theorem issued_of_distributive (h : ofFormula .distributive maxDepth table f = .ok form) :
    form.supply.issued = pseudoNames f := by
  rcases ofFormula_cases h with ⟨hconstants, names, hconverts⟩ |
    ⟨hconstants, names, inner, hconverts, rfl⟩
  · rw [hconverts.draws.issued, hconverts.names_eq_nil, pseudoNames, hconstants]
    rfl
  · rw [hconverts.draws.issued, hconverts.names_eq_nil, pseudoNames, hconstants]
    rfl

/-- A formula holds under an assignment exactly if its clauses hold under one
that differs at introduced names only, which are the names of the clauses that
are not names of the formula.  By distributing, a formula without truth values
is equivalent to its clauses. -/
theorem ofFormula_keepsModels (h : ofFormula strategy maxDepth table f = .ok form)
    (hpseudo : PseudoFree f) :
    (∀ n, n ∈ form.supply.issued ↔ Mentions form.clauses n ∧ n ∉ f.atoms) ∧
    (∀ a, f.eval a = true ↔
      ∃ b, (∀ n, n ∉ form.supply.issued → b n = a n) ∧ AllHold b form.clauses) ∧
    (strategy = .distributive →
      form.supply.issued = pseudoNames f ∧
      (f.containsConstants = false → ∀ a, f.eval a = true ↔ AllHold a form.clauses)) := by
  have hkeeps : ∀ a, f.eval a = true ↔
      ∃ b, (∀ n, n ∉ form.supply.issued → b n = a n) ∧ AllHold b form.clauses := by
    refine fun a => ⟨exists_allHold_of_eval h hpseudo, fun ⟨b, hb, hform⟩ => ?_⟩
    rw [← eval_of_allHold h hform]
    exact eval_congr fun n hn => (hb n (not_mem_issued h hpseudo hn)).symm
  refine ⟨fun n => ?_, hkeeps, ?_⟩
  · rw [ofFormula_mentions_iff h]
    refine ⟨fun hn => ⟨Or.inr hn, fun hatom => not_mem_issued h hpseudo hatom hn⟩, ?_⟩
    exact fun ⟨hn, hatom⟩ => hn.resolve_left hatom
  rintro rfl
  have hissued := issued_of_distributive h
  refine ⟨hissued, fun hconstants a => ?_⟩
  rw [pseudoNames, hconstants, if_neg Bool.false_ne_true] at hissued
  refine (hkeeps a).trans ⟨fun ⟨b, hb, hform⟩ => ?_, fun hform => ⟨a, fun _ _ => rfl, hform⟩⟩
  -- Nothing was introduced, so the two assignments are the same.
  rwa [funext fun n => (hb n (by rw [hissued]; exact List.not_mem_nil)).symm]

/-- The formula `(1 && A) || (B && temp_0)`, of which one truth value and the
first temporary are in the way of new names. -/
def keepsModelsExample : Formula :=
  disjunction (conjunction (constant true) (atom "A")) (conjunction (atom "B") (atom "temp_0"))

theorem ofFormula_keepsModels_example :
    ∃ form, ofFormula .replacing 5 none keepsModelsExample = .ok form ∧
      PseudoFree keepsModelsExample ∧
      (∀ a, keepsModelsExample.eval a = true ↔
        ∃ b, (∀ n, n ∉ form.supply.issued → b n = a n) ∧ AllHold b form.clauses) := by
  have hok : (ofFormula .replacing 5 none keepsModelsExample).isOk = true := by decide +kernel
  have hpseudo : PseudoFree keepsModelsExample := by decide +kernel
  cases h : ofFormula .replacing 5 none keepsModelsExample with
  | error cause => rw [h] at hok; cases hok
  | ok form => exact ⟨form, rfl, hpseudo, (ofFormula_keepsModels h hpseudo).2.1⟩

end Presence.ClauseForm
