import Presence.Listing
import Presence.Proofs.Checker.Encoding

/-!
# Correctness of pruning

A check has an answer unless the condition is too deep, or unknown names are a fault and the
condition has one (`Checker.encode_cases`), or the engine or its worker fails
(`Checker.solve_cases`).  The first and the last of these stop the pruning of a listing, at the
first entry that has such a fault (`Listing.prune_eq_error_iff`).

So with engines that answer correctly and without a time limit, pruning finds exactly the files
whose condition fails under every assignment under which the clauses of the model hold, whatever
the strategy of conversion is (`Listing.prune_result`).
-/

namespace Presence

/-- The condition fails wherever the model holds.  It has no unknown names if these are a
fault. -/
structure FeatureModel.RulesOut (m : FeatureModel) (policy : Policy) (f : Formula) : Prop where
  known : policy = .fail → ∀ n ∈ f.atoms, m.names.contains n = true
  fails : ∀ v a, m.cnf.holds v = true → m.Interprets policy f v a → f.eval a = false

/-- The model does not have the names of the atoms for truth values. -/
def FeatureModel.PseudoFree (m : FeatureModel) : Prop :=
  ∀ n, n = pseudoTrue ∨ n = pseudoFalse → m.names.contains n = false

/-- The file has a condition that is nested too deep to be converted. -/
def Entry.IsTooDeep (e : Entry) (maxDepth : Nat) : Prop :=
  ∃ f, e.condition = some f ∧ maxDepth + 1 < f.depth

/-- The file has a condition that the model rules out. -/
def Entry.IsRuledOut (e : Entry) (m : FeatureModel) (policy : Policy) : Prop :=
  ∃ f, e.condition = some f ∧ m.RulesOut policy f

/-- The condition does not use the names of the atoms for truth values. -/
def Entry.PseudoFree (e : Entry) : Prop :=
  ∀ f, e.condition = some f → ∀ n, n = pseudoTrue ∨ n = pseudoFalse → n ∉ f.atoms

/-! ## Answers of checks -/

namespace Checker

variable {c : Checker} {engine : Engine} {f : Formula} {policy : Policy} {b : Bool}

section

variable (hmark : c.model.cnf.variableCount ≤ c.model.names.mark) (hmodel : c.model.PseudoFree)
  (hf : ∀ n, n = pseudoTrue ∨ n = pseudoFalse → n ∉ f.atoms)

include hmark hmodel hf

/-- The answer is `false` exactly if the model rules the condition out. -/
theorem isSatisfiable_eq_false_iff (hengine : engine.AnswersCorrectly)
    (h : (c.isSatisfiable engine f policy).result = .ok b) :
    b = false ↔ c.model.RulesOut policy f := by
  have hpseudo : ∀ n, n = pseudoTrue ∨ n = pseudoFalse →
      n ∉ f.atoms ∧ c.model.names.contains n = false := fun n hn => ⟨hf n hn, hmodel n hn⟩
  obtain ⟨hb, hknown⟩ := isSatisfiable_eq_true_iff hengine hmark (fun _ => hpseudo) h
  rw [← Bool.not_eq_true, hb]
  constructor
  · intro hnone
    refine ⟨hknown, fun v a hv ha => ?_⟩
    rw [← Bool.not_eq_true]
    exact fun heval => hnone ⟨v, hv, a, ha, heval⟩
  · rintro hrules ⟨v, hv, a, ha, heval⟩
    rw [hrules.fails v a hv ha] at heval
    cases heval

/-- A condition with an unknown name is not ruled out if such names are a fault. -/
theorem isSatisfiable_cases (hengine : engine.AnswersCorrectly) (htimeout : c.config.timeout = 0)
    (policy : Policy) (hdepth : f.depth ≤ c.config.maxDepth + 1) :
    (∃ b, (c.isSatisfiable engine f policy).result = .ok b ∧
      (b = false ↔ c.model.RulesOut policy f)) ∨
      (∃ cause, (c.isSatisfiable engine f policy).result = .error (.unknownName cause)) ∧
        ¬c.model.RulesOut policy f := by
  rcases encode_cases policy hdepth with
    ⟨query, hquery⟩ | ⟨hpolicy, cause, hcause, hname, hcontains⟩
  · rcases isSatisfiable_of_ok_cases hquery engine with ⟨b, hb⟩ | ⟨_, _, _, hlimited⟩
    · exact Or.inl ⟨b, hb, isSatisfiable_eq_false_iff hmark hmodel hf hengine hb⟩
    · exact absurd htimeout (hlimited hengine.answers)
  · refine Or.inr ⟨⟨cause, isSatisfiable_of_error hcause engine⟩, fun hrules => ?_⟩
    rw [hrules.known hpolicy cause.name hname] at hcontains
    cases hcontains

end

end Checker

/-! ## Listings -/

namespace Listing

variable {c : Checker} {engine : Engine} {engines : Nat → Engine} {policy : Policy} {e : Entry}
  {entries : List Entry} {cause : CheckError}

theorem contradicting_of_isTooDeep (engine : Engine) (policy : Policy)
    (he : e.IsTooDeep c.config.maxDepth) :
    (contradicting engine c policy e).result =
      .error (.constraint (.tooDeep c.config.maxDepth)) := by
  obtain ⟨f, hcondition, hdepth⟩ := he
  have hencode := Checker.encode_of_lt_depth policy hdepth
  simp only [contradicting, hcondition, Noted.after, Checker.isSatisfiable_of_error hencode engine]

theorem depth_le_of_not_isTooDeep {maxDepth : Nat} {f : Formula} (he : ¬e.IsTooDeep maxDepth)
    (hcondition : e.condition = some f) : f.depth ≤ maxDepth + 1 :=
  Nat.le_of_not_lt fun hdepth => he ⟨f, hcondition, hdepth⟩

/-- An entry that is not too deep fails only as the engine or its worker does. -/
theorem contradicting_cases (engine : Engine) (policy : Policy)
    (he : ¬e.IsTooDeep c.config.maxDepth) :
    (∃ found, (contradicting engine c policy e).result = .ok found) ∨
    ∃ cause, (contradicting engine c policy e).result = .error cause ∧ cause.isOfEngine = true ∧
      (engine.Answers → c.config.timeout ≠ 0) := by
  rw [contradicting]
  cases hcondition : e.condition with
  | none => exact Or.inl ⟨[], rfl⟩
  | some f =>
      simp only [Noted.after]
      rcases Checker.encode_cases policy (depth_le_of_not_isTooDeep he hcondition) with
        ⟨query, hquery⟩ | ⟨_, cause, hcause, _⟩
      · rcases Checker.isSatisfiable_of_ok_cases hquery engine with
          ⟨b, hb⟩ | ⟨cause, hcause, hengine, hlimited⟩
        · rw [hb]
          cases b with
          | true => exact Or.inl ⟨[], rfl⟩
          | false => exact Or.inl ⟨[e], rfl⟩
        · rw [hcause]
          cases cause with
          | unknownName _ => cases hengine
          | _ => exact Or.inr ⟨_, rfl, hengine, hlimited⟩
      · rw [Checker.isSatisfiable_of_error hcause]
        exact Or.inl ⟨[], rfl⟩

theorem prune_cons_of_error (h : (contradicting (engines 0) c policy e).result = .error cause)
    (entries : List Entry) : (prune engines c policy (e :: entries)).result = .error cause := by
  simp only [prune, h]

theorem prune_cons_of_ok {found : List Entry}
    (h : (contradicting (engines 0) c policy e).result = .ok found) (entries : List Entry) :
    (prune engines c policy (e :: entries)).result =
      (prune (fun n => engines (n + 1)) c policy entries).result.map (found ++ ·) := by
  simp only [prune, h]

/-- Pruning stops at the first entry that fails, with the fault of this entry. -/
theorem prune_eq_error_iff :
    (prune engines c policy entries).result = .error cause ↔
      ∃ before e after, entries = before ++ e :: after ∧
        (∃ pruned, (prune engines c policy before).result = .ok pruned) ∧
        (contradicting (engines before.length) c policy e).result = .error cause := by
  induction entries generalizing engines with
  | nil => simp [prune]
  | cons e entries ih =>
      simp only [List.cons_eq_append_iff]
      cases hfirst : (contradicting (engines 0) c policy e).result with
      | error other =>
          rw [prune_cons_of_error hfirst]
          constructor
          · rintro ⟨⟩
            exact ⟨[], e, entries, Or.inl ⟨rfl, rfl⟩, ⟨[], rfl⟩, hfirst⟩
          · rintro ⟨_, e', after, ⟨rfl, h⟩ | ⟨tail, rfl, _⟩, ⟨pruned, hpruned⟩, hcause⟩
            · cases h
              exact hfirst.symm.trans hcause
            · rw [prune_cons_of_error hfirst] at hpruned
              cases hpruned
      | ok found =>
          rw [prune_cons_of_ok hfirst, map_eq_error_iff, ih]
          constructor
          · rintro ⟨before, e', after, rfl, ⟨pruned, hpruned⟩, hcause⟩
            refine ⟨e :: before, e', after, Or.inr ⟨before, rfl, rfl⟩, ⟨found ++ pruned, ?_⟩, hcause⟩
            rw [prune_cons_of_ok hfirst, hpruned]
            rfl
          · rintro ⟨_, e', after, ⟨rfl, h⟩ | ⟨before, rfl, rfl⟩, ⟨pruned, hpruned⟩, hcause⟩
            · cases h
              cases hfirst.symm.trans hcause
            · rw [prune_cons_of_ok hfirst] at hpruned
              obtain ⟨rest, hrest, _⟩ := map_eq_ok_iff.1 hpruned
              exact ⟨before, e', after, rfl, ⟨rest, hrest⟩, hcause⟩

theorem contradicting_eq_error_iff (hcause : cause.isOfEngine = false) :
    (contradicting engine c policy e).result = .error cause ↔
      e.IsTooDeep c.config.maxDepth ∧ cause = .constraint (.tooDeep c.config.maxDepth) := by
  by_cases he : e.IsTooDeep c.config.maxDepth
  · rw [contradicting_of_isTooDeep engine policy he, and_iff_right he, Except.error.injEq, eq_comm]
  · refine iff_of_false (fun h => ?_) fun h => he h.1
    rcases contradicting_cases engine policy he with ⟨found, hfound⟩ | ⟨other, hother, hengine, _⟩
    · cases h.symm.trans hfound
    · cases h.symm.trans hother
      rw [hcause] at hengine
      cases hengine

/-- With engines that always answer and without a time limit, pruning fails only on a condition
that is too deep, whatever the model and the conditions are. -/
theorem prune_eq_error_iff_of_answers (hanswers : ∀ n, (engines n).Answers)
    (htimeout : c.config.timeout = 0) :
    (prune engines c policy entries).result = .error cause ↔
      (∃ e ∈ entries, e.IsTooDeep c.config.maxDepth) ∧
        cause = .constraint (.tooDeep c.config.maxDepth) := by
  induction entries generalizing engines with
  | nil => simp [prune]
  | cons e entries ih =>
      rw [List.exists_mem_cons_iff]
      by_cases he : e.IsTooDeep c.config.maxDepth
      · rw [prune_cons_of_error (contradicting_of_isTooDeep (engines 0) policy he),
          and_iff_right (Or.inl he), Except.error.injEq, eq_comm]
      · rcases contradicting_cases (engines 0) policy he with ⟨found, hfound⟩ | ⟨_, _, _, hlimited⟩
        · rw [prune_cons_of_ok hfound, map_eq_error_iff, ih fun n => hanswers (n + 1),
            or_iff_right he]
        · exact absurd htimeout (hlimited (hanswers 0))

open Classical in
/-- An entry is found exactly if the model rules it out. -/
theorem contradicting_eq_ok (hengine : engine.AnswersCorrectly) (htimeout : c.config.timeout = 0)
    (policy : Policy) (hmark : c.model.cnf.variableCount ≤ c.model.names.mark)
    (hmodel : c.model.PseudoFree) (he : e.PseudoFree) (hdeep : ¬e.IsTooDeep c.config.maxDepth) :
    (contradicting engine c policy e).result =
      .ok (if e.IsRuledOut c.model policy then [e] else []) := by
  rw [contradicting]
  cases hcondition : e.condition with
  | none => simp [Entry.IsRuledOut, hcondition]
  | some f =>
      have hdepth := depth_le_of_not_isTooDeep hdeep hcondition
      simp only [Noted.after, Entry.IsRuledOut, hcondition, Option.some.injEq, exists_eq_left']
      rcases Checker.isSatisfiable_cases hmark hmodel (he f hcondition) hengine htimeout policy
          hdepth with ⟨b, hb, hrules⟩ | ⟨⟨cause, hcause⟩, hrules⟩
      · rw [hb]
        cases b with
        | true => rw [if_neg fun h => Bool.noConfusion (hrules.2 h)]
        | false => rw [if_pos (hrules.1 rfl)]
      · rw [hcause, if_neg hrules]

open Classical in
/-- With engines that answer correctly and without a time limit, pruning a listing against a model
that was read finds the files whose conditions the model rules out, in order.  It fails only on a
condition that is too deep. -/
theorem prune_result {engines : Nat → Engine} (hengines : ∀ n, (engines n).AnswersCorrectly)
    {stem : String} {bytes : List UInt8} {m : FeatureModel}
    (hparse : FeatureModel.parse stem bytes = .ok m) (config : Config)
    (htimeout : config.timeout = 0) (policy : Policy) {entries : List Entry}
    (hmodel : m.PseudoFree) (hentries : ∀ e ∈ entries, e.PseudoFree) :
    (prune engines ⟨m, config⟩ policy entries).result =
      if ∃ e ∈ entries, e.IsTooDeep config.maxDepth then
        .error (.constraint (.tooDeep config.maxDepth))
      else .ok (entries.filter fun e => e.IsRuledOut m policy) := by
  split
  next hdeep =>
    exact (prune_eq_error_iff_of_answers (fun n => (hengines n).answers) htimeout).2 ⟨hdeep, rfl⟩
  next hdeep =>
    have hmark := FeatureModel.variableCount_le_mark hparse
    induction entries generalizing engines with
    | nil => rfl
    | cons e entries ih =>
        obtain ⟨he, hentries⟩ := List.forall_mem_cons.1 hentries
        rw [List.exists_mem_cons_iff, not_or] at hdeep
        have hfirst := contradicting_eq_ok (c := ⟨m, config⟩) (hengines 0) htimeout policy hmark
          hmodel he hdeep.1
        rw [prune_cons_of_ok hfirst, ih (fun n => hengines (n + 1)) hentries hdeep.2]
        by_cases hout : e.IsRuledOut m policy
        · rw [if_pos hout, List.filter_cons, if_pos (decide_eq_true hout)]
          rfl
        · rw [if_neg hout, List.filter_cons, if_neg fun h => hout (of_decide_eq_true h)]
          rfl

/-- A file with a condition that the example model rules out. -/
def ruledOutExample : Entry := ⟨"b.c", some (.conjunction (.atom "B") (.negation (.atom "A")))⟩

/-- This file beside others, one of which has a condition with an unknown name. -/
def entriesExample : List Entry :=
  [⟨"a.c", some (.atom "A")⟩, ruledOutExample,
    ⟨"c.c", some (.conjunction (.atom "C") (.negation (.atom "C")))⟩, ⟨"d.c", none⟩]

theorem prune_result_example :
    ∃ m, FeatureModel.parse "" impliesExample = .ok m ∧ m.PseudoFree ∧
      (∀ e ∈ entriesExample, e.PseudoFree) ∧
      ∀ e ∈ entriesExample, e.IsRuledOut m .fail ↔ e = ruledOutExample := by
  have hrun : (FeatureModel.parse "" impliesExample).toOption.map (fun m =>
      (m.names.contains pseudoTrue, m.names.contains pseudoFalse,
        (prune (fun _ => Search.engine) ⟨m, {}⟩ .fail entriesExample).result)) =
      some (false, false, .ok [ruledOutExample]) := by decide +kernel
  have hconditions : ∀ e ∈ entriesExample, ∀ f ∈ e.condition,
      pseudoTrue ∉ f.atoms ∧ pseudoFalse ∉ f.atoms := by decide
  have hentries : ∀ e ∈ entriesExample, e.PseudoFree := by
    rintro e he f hf n (rfl | rfl)
    · exact (hconditions e he f hf).1
    · exact (hconditions e he f hf).2
  obtain ⟨m, hparse, hrun⟩ := exists_of_map_toOption hrun
  simp only [Prod.mk.injEq] at hrun
  obtain ⟨htrue, hfalse, hpruned⟩ := hrun
  have hmodel : m.PseudoFree := by
    rintro n (rfl | rfl)
    · exact htrue
    · exact hfalse
  refine ⟨m, hparse, hmodel, hentries, fun e he => ?_⟩
  rw [prune_result (fun _ => Search.engine_answersCorrectly) hparse {} rfl .fail hmodel hentries]
    at hpruned
  split at hpruned
  next => cases hpruned
  next =>
    have hmem := congrArg (e ∈ ·) (Except.ok.inj hpruned)
    simpa [he] using hmem

end Listing

end Presence
