import Presence.Proofs.Checker.Satisfiable
import Presence.Proofs.ClauseForm.Policies
import Presence.Proofs.Dimacs.UsedNumbers

/-!
# Encodings

A condition that is not too deep has an encoding, unless unknown names are a fault and it has
one (`Checker.encode_cases`).  Conversely, no condition with an unknown name has an encoding
then, as the clauses keep all names of the condition and what they have beside these is
introduced (`Checker.encode_refusals`).

An encoding adds names to the table of the model in two steps, those that the conversion
introduces and those that the numbering of the clauses finds unknown.  Neither step does
anything else to the table (`Checker.exists_names_of_encode`).  So the new names take the numbers
that follow the mark of the model, without a gap, and no number that the text of the model used
on the way gets a name (`Checker.encode_numbers`).

The policy has a say in the numbering only.  So an open and a closed world have the same
encodings but for the clauses by which a closed world denies unknown names
(`Checker.encode_closedWorld`).
-/

namespace Presence

namespace Checker

variable {c : Checker} {f : Formula} {policy : Policy} {query : FeatureModel}

/-! ## Which conditions have an encoding -/

theorem encode_of_lt_depth (policy : Policy) (hdepth : c.config.maxDepth + 1 < f.depth) :
    (c.encode f policy).result = .error (.constraint (.tooDeep c.config.maxDepth)) := by
  rw [encode_result, ClauseForm.ofFormula_eq_error_iff.2 ⟨hdepth, rfl⟩]

/-- A condition that is not too deep has an encoding, unless unknown names are a fault and it
has one. -/
theorem encode_cases (policy : Policy) (hdepth : f.depth ≤ c.config.maxDepth + 1) :
    (∃ query, (c.encode f policy).result = .ok query) ∨
      policy = .fail ∧ ∃ cause, (c.encode f policy).result = .error (.unknownName cause) ∧
        cause.name ∈ f.atoms ∧ c.model.names.contains cause.name = false := by
  obtain ⟨form, hform⟩ := ClauseForm.exists_ofFormula c.config.strategy (some c.model.names) hdepth
  simp only [encode_result, hform]
  rcases ofClauses_cases policy (form.supply.issued.reverse.foldl NameTable.add c.model.names)
      (ClauseForm.ofFormula_isClause hform) with
    ⟨numbered, hnumbered⟩ | ⟨hpolicy, cause, hcause, hmentions, hcontains⟩
  · rw [hnumbered]
    exact Or.inl ⟨_, rfl⟩
  · rw [hcause]
    refine Or.inr ⟨hpolicy, cause, rfl, ?_⟩
    rw [← Bool.not_eq_true, NameTable.contains_foldl_add, List.mem_reverse, not_or,
      Bool.not_eq_true] at hcontains
    have hatom := (ClauseForm.ofFormula_mentions_iff hform cause.name).1 hmentions
    exact ⟨hatom.resolve_right hcontains.1, hcontains.2⟩

/-- No condition has an encoding if it is too deep, and the limit is what is reported.  Of the
other conditions only those with unknown names have none, if such names are a fault.  One of
these is reported then. -/
theorem encode_refusals (policy : Policy) (hpseudo : ClauseForm.PseudoFree f) :
    ((∃ cause, (c.encode f policy).result = .error cause) ↔
      c.config.maxDepth + 1 < f.depth ∨
        policy = .fail ∧ ∃ n ∈ f.atoms, c.model.names.contains n = false) ∧
    (c.config.maxDepth + 1 < f.depth →
      (c.encode f policy).result = .error (.constraint (.tooDeep c.config.maxDepth))) ∧
    (f.depth ≤ c.config.maxDepth + 1 → ∀ cause, (c.encode f policy).result = .error cause →
      ∃ unknown, cause = .unknownName unknown ∧ unknown.name ∈ f.atoms ∧
        c.model.names.contains unknown.name = false) := by
  refine ⟨⟨?_, ?_⟩, encode_of_lt_depth policy, ?_⟩
  · rintro ⟨cause, hcause⟩
    rcases Nat.lt_or_ge (c.config.maxDepth + 1) f.depth with hdepth | hdepth
    · exact Or.inl hdepth
    · rcases encode_cases policy hdepth with
        ⟨query, hquery⟩ | ⟨hpolicy, unknown, _, hmem, hcontains⟩
      · rw [hquery] at hcause
        cases hcause
      · exact Or.inr ⟨hpolicy, unknown.name, hmem, hcontains⟩
  · rintro (hdepth | ⟨hpolicy, n, hn, hcontains⟩)
    · exact ⟨_, encode_of_lt_depth policy hdepth⟩
    · cases hencode : (c.encode f policy).result with
      | error cause => exact ⟨cause, rfl⟩
      | ok query =>
          obtain ⟨form, t, numbered, hencodes, _⟩ := encode_eq_ok hencode
          rw [hencodes.contains_of_mem_atoms hpseudo hpolicy hn] at hcontains
          cases hcontains
  · intro hdepth cause hcause
    rcases encode_cases policy hdepth with ⟨query, hquery⟩ | ⟨_, unknown, hunknown, hmem⟩
    · rw [hquery] at hcause
      cases hcause
    · rw [hunknown] at hcause
      cases hcause
      exact ⟨unknown, rfl, hmem⟩

/-- The name `C` of the condition is unknown. -/
theorem encode_refusals_example :
    ∃ m, FeatureModel.parse "" impliesExample = .ok m ∧
      ∃ unknown, (encode ⟨m, {}⟩ conditionExample .fail).result = .error (.unknownName unknown) ∧
        unknown.name ∈ conditionExample.atoms := by
  have hrun : (FeatureModel.parse "" impliesExample).toOption.map (fun m => m.names.contains "C") =
      some false := by decide +kernel
  obtain ⟨m, hparse, hnew⟩ := exists_of_map_toOption hrun
  have hdepth : conditionExample.depth ≤ ({} : Config).maxDepth + 1 := by
    rw [Formula.depth_eq_height]
    decide
  have hrefused := encode_refusals (c := ⟨m, {}⟩) .fail fun _ => (by decide :
    pseudoTrue ∉ conditionExample.atoms ∧ pseudoFalse ∉ conditionExample.atoms)
  obtain ⟨cause, hcause⟩ := hrefused.1.2 (Or.inr ⟨rfl, "C", by decide, hnew⟩)
  obtain ⟨unknown, rfl, hmem, _⟩ := hrefused.2.2 hdepth cause hcause
  exact ⟨m, hparse, unknown, hcause, hmem⟩

/-! ## Policies -/

/-- The literals of named variables need no room beyond the mark. -/
theorem variableCount_ofNumbered {numbered : Numbered}
    (hnamed : ∀ cl ∈ numbered.clauses, Clause.Named numbered.table cl) :
    (ofNumbered numbered).cnf.variableCount = numbered.table.mark := by
  refine Nat.max_eq_right (Cnf.variableCount_foldl_add_le (Nat.zero_le _) fun cl hcl => ?_)
  refine Clause.largest_le_iff.2 fun l hl => ?_
  obtain ⟨n, hn⟩ := hnamed cl hcl l hl
  exact numbered.table.le_mark n _ hn

theorem toList_ofNumbered (numbered : Numbered) :
    (ofNumbered numbered).cnf.clauses.toList = numbered.clauses :=
  Cnf.toList_ofClauses numbered.clauses

theorem encode_eq_ok_of_ofClauses {form : ClauseForm} {t : NameTable} {numbered : Numbered}
    (hform : ClauseForm.ofFormula c.config.strategy c.config.maxDepth (some c.model.names) f =
      .ok form) (htable : form.supply.table = some t)
    (hnumbered : Numbered.ofClauses policy t form.clauses = .ok numbered) :
    (c.encode f policy).result = .ok (ofNumbered numbered) := by
  simp only [encode, hform, htable, Option.getD_some, hnumbered, Noted.after, ofNumbered]

/-- Of the names of the clauses only those of the condition can be unknown, as the introduced
names are in the table by then. -/
theorem mentions_unknown_iff {form : ClauseForm} {t : NameTable}
    (hform : ClauseForm.ofFormula c.config.strategy c.config.maxDepth (some c.model.names) f =
      .ok form) (htable : form.supply.table = some t) (n : String) :
    ClauseForm.Mentions form.clauses n ∧ t.contains n = false ↔
      n ∈ f.atoms ∧ t.contains n = false := by
  rw [ClauseForm.ofFormula_table hform, Option.map_some, Option.some.injEq] at htable
  subst htable
  rw [ClauseForm.ofFormula_mentions_iff hform]
  refine and_congr_left fun hnew => or_iff_left fun hissued => ?_
  rw [← Bool.not_eq_true, NameTable.contains_foldl_add, List.mem_reverse, not_or] at hnew
  exact hnew.1 hissued

theorem contains_of_mentions {form : ClauseForm} {t : NameTable} {n : String}
    (hform : ClauseForm.ofFormula c.config.strategy c.config.maxDepth (some c.model.names) f =
      .ok form) (htable : form.supply.table = some t)
    (hknown : ∀ n ∈ f.atoms, t.contains n = true) (hn : ClauseForm.Mentions form.clauses n) :
    t.contains n = true := by
  by_contra hnew
  rw [Bool.not_eq_true] at hnew
  have hatom := ((mentions_unknown_iff hform htable n).1 ⟨hn, hnew⟩).1
  rw [hknown n hatom] at hnew
  cases hnew

/-- A condition has no encoding under any policy, for the same reason, or it has one in an open
and one in a closed world.  These have the same table, and the clauses of the closed world are
those of the open world with one denial for each name of the condition that was unknown to the
table before the numbering, directly in front of the first clause that uses the name.  If there is
no such name then all policies have the same encoding. -/
theorem encode_closedWorld (c : Checker) (f : Formula) :
    (∃ cause, ∀ policy, (c.encode f policy).result = .error cause) ∨
    ∃ form t opened closed names,
      ClauseForm.ofFormula c.config.strategy c.config.maxDepth (some c.model.names) f = .ok form ∧
      form.supply.table = some t ∧
      (c.encode f .openWorld).result = .ok opened ∧
      (c.encode f .closedWorld).result = .ok closed ∧
      closed.names = opened.names ∧ closed.cnf.variableCount = opened.cnf.variableCount ∧
      names.Nodup ∧ (∀ n, n ∈ names ↔ n ∈ f.atoms ∧ t.contains n = false) ∧
      Denies opened.names names opened.cnf.clauses.toList closed.cnf.clauses.toList ∧
      ((∀ n ∈ f.atoms, t.contains n = true) → ∀ policy, (c.encode f policy).result = .ok opened) := by
  cases hform : ClauseForm.ofFormula c.config.strategy c.config.maxDepth (some c.model.names) f with
  | error cause =>
      refine Or.inl ⟨.constraint cause, fun policy => ?_⟩
      rw [encode_result, hform]
  | ok form =>
      have hclauses := ClauseForm.ofFormula_isClause hform
      obtain ⟨t, htable⟩ : ∃ t, form.supply.table = some t :=
        ⟨_, ClauseForm.ofFormula_table hform⟩
      -- Clauses are numbered unless an unknown name is a fault.
      obtain ⟨opened, hopened⟩ :=
        (ofClauses_cases .openWorld t hclauses).resolve_right fun h => nomatch h.1
      obtain ⟨closed, hclosed⟩ :=
        (ofClauses_cases .closedWorld t hclauses).resolve_right fun h => nomatch h.1
      obtain ⟨hsame, names, hnodup, hnames, hdenies⟩ := denies_of_ofClauses hopened hclosed
      refine Or.inr ⟨form, t, ofNumbered opened, ofNumbered closed, names, rfl, htable,
        encode_eq_ok_of_ofClauses hform htable hopened,
        encode_eq_ok_of_ofClauses hform htable hclosed, hsame, ?_, hnodup, fun n => ?_, ?_,
        fun hknown policy => encode_eq_ok_of_ofClauses hform htable ?_⟩
      · rw [variableCount_ofNumbered (allocates_of_ofClauses hclosed).named,
          variableCount_ofNumbered (allocates_of_ofClauses hopened).named, hsame]
      · rw [hnames, mentions_unknown_iff hform htable]
      · rw [toList_ofNumbered, toList_ofNumbered]
        exact hdenies
      · have hmentioned : ∀ n, ClauseForm.Mentions form.clauses n → t.contains n = true :=
          fun n hn => contains_of_mentions hform htable hknown hn
        rw [ofClauses_of_known policy .openWorld hmentioned, hopened]

/-! ## What an encoding adds -/

/-- An encoding adds names to those of the model, one after the other. -/
theorem exists_names_of_encode (h : (c.encode f policy).result = .ok query) :
    ∃ added : List String, query.names = added.foldl NameTable.add c.model.names ∧
      (∀ cl ∈ query.cnf.clauses, Clause.Named query.names cl) ∧
      query.cnf.variableCount = query.names.mark := by
  rw [encode_result] at h
  split at h
  next => cases h
  next form hform =>
    split at h
    next => cases h
    next numbered hnumbered =>
      cases h
      have hallocates := allocates_of_ofClauses hnumbered
      refine ⟨form.supply.issued.reverse ++ numbered.added.map Prod.fst, ?_, fun cl hcl => ?_,
        variableCount_ofNumbered hallocates.named⟩
      · rw [List.foldl_append]
        exact hallocates.table_eq
      · refine hallocates.named cl ?_
        rw [← Cnf.toList_ofClauses numbered.clauses]
        exact Array.mem_toList_iff.2 hcl

end Checker

/-- What an encoding adds to a model that was read: all names of the model keep their numbers.
The other names have the numbers from the mark of the model up to that of the encoding, each
number for one name, and no state in which the reader was used one of these.  All literals are
of named variables, and the variables are counted up to the mark. -/
theorem Checker.encode_numbers {stem : String} {bytes : List UInt8} {m : FeatureModel}
    (hparse : FeatureModel.parse stem bytes = .ok m) (config : Config) {f : Formula}
    {policy : Policy} {query : FeatureModel}
    (h : (Checker.encode ⟨m, config⟩ f policy).result = .ok query) :
    (∀ n k, m.names.number? n = some k → query.names.number? n = some k) ∧
    (∀ n k, m.names.number? n = none → query.names.number? n = some k →
      m.names.mark < k ∧ (∀ cl ∈ m.cnf.clauses, ∀ l ∈ cl, l.number ≠ k) ∧
        ∀ r, Reader.Passes { stem } bytes r → ¬r.Uses k) ∧
    (∀ n n' k, query.names.number? n = some k → query.names.number? n' = some k → n = n') ∧
    (∀ k, (∃ n, m.names.number? n = none ∧ query.names.number? n = some k) ↔
      m.names.mark < k ∧ k ≤ query.names.mark) ∧
    (∀ cl ∈ query.cnf.clauses, ∀ l ∈ cl, ∃ n, query.names.number? n = some l.number) ∧
    query.cnf.variableCount = query.names.mark := by
  obtain ⟨added, hnames, hnamed, hcount⟩ := exists_names_of_encode h
  have hextends : m.names.Extends query.names := by
    rw [hnames]
    exact NameTable.extends_foldl_add added m.names
  refine ⟨hextends.keeps, fun n k hn hk => ?_, fun n n' k => NameTable.number?_inj, fun k => ?_,
    hnamed, hcount⟩
  · have habove := hextends.mark_lt_of_new hn hk
    refine ⟨habove, ?_, fun r hpasses huses => ?_⟩
    · rintro cl hcl l hl rfl
      have := Clause.number_le_largest hl
      have := m.cnf.largest_le cl hcl
      have := FeatureModel.variableCount_le_mark hparse
      omega
    · have := FeatureModel.le_mark_of_uses hparse hpasses huses
      omega
  · rw [hnames]
    exact NameTable.exists_new_foldl_add_iff added m.names

/-- The name `C` of the condition is new, and the model has the unnamed variable 3. -/
theorem Checker.encode_numbers_example :
    ∃ m query, FeatureModel.parse "" impliesExample = .ok m ∧
      (Checker.encode ⟨m, {}⟩ conditionExample .closedWorld).result = .ok query ∧
      (∃ k, query.names.number? "C" = some k ∧ m.names.mark < k) ∧
      query.cnf.variableCount = query.names.mark := by
  have hrun : (FeatureModel.parse "" impliesExample).toOption.map (fun m =>
      (m.names.number? "C",
        (Checker.encode ⟨m, {}⟩ conditionExample .closedWorld).result.toOption.map fun query =>
          query.names.number? "C")) =
      some (none, some (some 7)) := by decide +kernel
  obtain ⟨m, hparse, hrun⟩ := exists_of_map_toOption hrun
  obtain ⟨hold, hencoded⟩ := Prod.mk.inj hrun
  obtain ⟨query, h, hnew⟩ := exists_of_map_toOption hencoded
  obtain ⟨_, habove, _, _, _, hcount⟩ := encode_numbers hparse {} h
  exact ⟨m, query, hparse, h, ⟨7, hnew, (habove "C" 7 hold hnew).1⟩, hcount⟩

end Presence
