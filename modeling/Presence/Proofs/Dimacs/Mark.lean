import Presence.Proofs.Dimacs.Contents
import Presence.Proofs.NameTable.Changes

/-!
# The mark of a feature model

The numbers that a text uses are the declared number of variables, the numbers of its literals
and those of its naming comments, whether or not they still have a name in the end
(`usedNumbers`).  The mark of the feature model that is read is the largest of them.  Counts that
the problem line declares are exact, and whatever is done with the names later, no name that is
new gets a number that the text used (`FeatureModel.mark_parse`).
-/

namespace Presence

open Dimacs

/-- The numbers that a text uses: the declared number of variables, those of the literals, and
those of the naming comments. -/
def Dimacs.usedNumbers (lines : List (List UInt8)) : List Nat :=
  (declared? lines).toList.map Header.variableCount ++
    ((textWords lines).filterMap wordLiteral?).map Literal.number ++
    (namings lines).map Prod.fst

variable {stem : String} {bytes : List UInt8} {m : FeatureModel} {r : Reader}
  {lines rest : List (List UInt8)}

namespace Reader

/-- The declared number of variables and the literals say how many variables there are. -/
theorem Reads.variableCount_le_iff (h : Reads { stem } lines rest r) (hliterals : r.literals = [])
    (n : Nat) :
    r.cnf.variableCount ≤ n ↔ (∀ h ∈ declared? lines, h.variableCount ≤ n) ∧
      ∀ l ∈ (textWords lines).filterMap wordLiteral?, l.number ≤ n := by
  have hheader : r.header = declared? lines := h.header
  rw [(h.tallies (tallies_start stem)).variableCount_le_iff n, hheader,
    ← h.flatten_clauses hliterals]
  simp only [List.mem_flatten, Array.mem_toList_iff, forall_exists_index, and_imp,
    Option.mem_def]
  exact and_congr_right fun _ => ⟨fun h l c hc hl => h c hc l hl, fun h c hc l hl => h l c hc hl⟩

/-- Counts that agree with the problem line are exact. -/
theorem Tallies.exact_of_checkHeader {header : Header} (h : r.Tallies)
    (hheader : r.header = some header) (hcheck : r.checkHeader = .ok ()) :
    r.cnf.variableCount = header.variableCount ∧ r.cnf.clauses.size = header.clauseCount ∧
      ∀ c ∈ r.cnf.clauses, ∀ l ∈ c, l.number ≤ header.variableCount := by
  rw [checkHeader, hheader] at hcheck
  simp only at hcheck
  split at hcheck
  next => cases hcheck
  next hvariables =>
    split at hcheck
    next => cases hcheck
    next hclauses =>
      have hvariables := Decidable.not_not.1 hvariables
      refine ⟨hvariables, h.clauseCount ▸ Decidable.not_not.1 hclauses, ?_⟩
      exact ((h.variableCount_le_iff header.variableCount).1 (Nat.le_of_eq hvariables)).2

end Reader

namespace FeatureModel

/-- The mark is the largest number that the text uses. -/
theorem mark_eq_foldl_max (h : parse stem bytes = .ok m) :
    m.names.mark = (usedNumbers (textLines bytes)).foldl max 0 := by
  obtain ⟨rest, r, hreads, hliterals, -, -, hnames⟩ := exists_reads h
  have hnamings : r.names.mark = ((namings (textLines bytes)).map Prod.fst).foldl max 0 := by
    rw [hreads.names.1]
    exact Reader.mark_named ..
  refine eq_of_forall_ge_iff fun n => ?_
  have hmark : m.names.mark ≤ n ↔ r.names.mark ≤ n ∧ r.cnf.variableCount ≤ n := by
    rw [hnames]
    simp only [NameTable.reserve]
    omega
  rw [hmark, hnamings, hreads.variableCount_le_iff hliterals, foldl_max_le_iff, foldl_max_le_iff,
    usedNumbers]
  simp only [List.forall_mem_append, List.forall_mem_map, Option.mem_toList, Nat.zero_le, true_and]
  exact and_comm

/-- The mark is the largest number that the text uses, and counts that it declares are exact.
Later on, a name that is added either has a number already, or it gets one above all of these. -/
theorem mark_parse (h : parse stem bytes = .ok m) :
    m.names.mark = (usedNumbers (textLines bytes)).foldl max 0 ∧
    m.cnf.clauses.toList.flatten = (textWords (textLines bytes)).filterMap wordLiteral? ∧
    (∀ line ∈ textLines bytes, line.head? = some 112 → ∃ header, lineHeader? line = some header ∧
      m.cnf.variableCount = header.variableCount ∧ m.cnf.clauses.size = header.clauseCount ∧
        ∀ c ∈ m.cnf.clauses, ∀ l ∈ c, l.number ≤ header.variableCount) ∧
    ∀ changes name, (m.names.run changes).contains name = true ∨
      ∀ k ∈ usedNumbers (textLines bytes), k < (m.names.run changes).numberOf name := by
  have hmark := mark_eq_foldl_max h
  obtain ⟨rest, r, hreads, hliterals, hcheck, hcnf, -⟩ := exists_reads h
  have htallies := hreads.tallies (Reader.tallies_start stem)
  refine ⟨hmark, ?_, fun line hline hproblem => ?_, fun changes name => ?_⟩
  · rw [hcnf]
    exact hreads.flatten_clauses hliterals
  · obtain ⟨header, hdeclared, hheader⟩ := hreads.header_of_mem hline hproblem
    rw [hcnf]
    exact ⟨header, hdeclared, htallies.exact_of_checkHeader hheader hcheck⟩
  · cases hc : (m.names.run changes).contains name with
    | true => exact Or.inl rfl
    | false =>
        refine Or.inr fun k hk => ?_
        have hle : k ≤ m.names.mark := hmark ▸ (foldl_max_le_iff.1 (Nat.le_refl _)).2 k hk
        have hrun := NameTable.mark_le_mark_run m.names changes
        rw [NameTable.numberOf_of_not_contains hc]
        omega

/-- A text with a name that moves from one number to another, a variable that no clause uses, and
a line end of two bytes. -/
def movedNameExample : List UInt8 :=
  "c 7 A\r\nc 2 A\np cnf 5 2\n1 -3 0\n2 0".toUTF8.toList

theorem mark_parse_example :
    usedNumbers (textLines movedNameExample) = [5, 1, 3, 2, 7, 2] ∧
      ∃ m, parse "M_" movedNameExample = .ok m ∧ m.names.contains "M_B" = false ∧
        m.names.mark = 7 ∧ m.cnf.variableCount = 5 ∧ m.cnf.clauses.size = 2 ∧
        ∀ k ∈ usedNumbers (textLines movedNameExample), k < m.names.numberOf "M_B" := by
  have hused : usedNumbers (textLines movedNameExample) = [5, 1, 3, 2, 7, 2] := by decide +kernel
  have hline : "p cnf 5 2".toUTF8.toList ∈ textLines movedNameExample := by decide +kernel
  have hdeclared : lineHeader? "p cnf 5 2".toUTF8.toList = some ⟨5, 2⟩ := by decide +kernel
  have hread : (parse "M_" movedNameExample).toOption.map (·.names.contains "M_B") = some false := by
    decide +kernel
  obtain ⟨m, hparse, hnew⟩ := exists_of_map_toOption hread
  obtain ⟨hmark, -, hexact, hadd⟩ := mark_parse hparse
  obtain ⟨header, hheader, hvariables, hclauses, -⟩ := hexact _ hline (by decide +kernel)
  rw [hdeclared, Option.some.injEq] at hheader
  subst hheader
  refine ⟨hused, m, hparse, hnew, ?_, hvariables, hclauses, ?_⟩
  · rw [hmark, hused]
    rfl
  · exact (hadd [] "M_B").resolve_left (Bool.eq_false_iff.1 hnew)

end FeatureModel
end Presence
