import Presence.Cnf
import Mathlib.Logic.Function.Basic

/-!
# Numbered clauses that hold

Whether clauses hold depends on the variables with their numbers only.  No
clause of a numbered clause form has a number above its count of variables.
-/

namespace Presence

variable {v w : Nat → Bool} {l : Literal} {c d : Clause} {cs ds : List Clause}

/-! ## Literals and clauses -/

theorem Literal.holds_negate (v : Nat → Bool) (l : Literal) :
    l.negate.holds v = !l.holds v := by
  obtain ⟨number, positive⟩ := l
  cases hv : v number <;> cases positive <;> simp [holds, negate, hv]

/-- A literal with the number of another is that one or its negation. -/
theorem Literal.eq_or_eq_negate {k : Literal} (h : k.number = l.number) :
    k = l ∨ k = l.negate := by
  obtain ⟨number, positive⟩ := l
  obtain ⟨number', positive'⟩ := k
  cases h
  cases positive <;> cases positive' <;> simp [negate]

theorem Clause.holds_iff : Clause.holds v c = true ↔ ∃ l ∈ c, l.holds v = true := List.any_eq_true

theorem Clause.not_holds_nil : ¬Clause.holds v [] = true := Bool.false_ne_true

theorem Clause.holds_singleton : Clause.holds v [l] = l.holds v := Bool.or_false _

/-- The largest of some numbers is not above a bound if none of them is. -/
theorem foldl_max_le_iff {ks : List Nat} {k n : Nat} :
    ks.foldl max k ≤ n ↔ k ≤ n ∧ ∀ i ∈ ks, i ≤ n := by
  induction ks generalizing k with
  | nil => simp
  | cons i ks ih => rw [List.foldl_cons, ih, Nat.max_le, List.forall_mem_cons, and_assoc]

theorem Clause.largest_le_iff {n : Nat} : c.largest ≤ n ↔ ∀ l ∈ c, l.number ≤ n := by
  rw [largest, foldl_max_le_iff, List.forall_mem_map]
  exact and_iff_right (Nat.zero_le n)

/-- The largest number bounds the numbers of a clause. -/
theorem Clause.number_le_largest (hl : l ∈ c) : l.number ≤ c.largest :=
  largest_le_iff.1 (Nat.le_refl _) l hl

/-- All clauses hold. -/
def Clause.AllHold (v : Nat → Bool) (cs : List Clause) : Prop := ∀ c ∈ cs, c.holds v = true

theorem Clause.allHold_append :
    Clause.AllHold v (cs ++ ds) ↔ Clause.AllHold v cs ∧ Clause.AllHold v ds :=
  List.forall_mem_append

theorem Clause.holds_congr (h : ∀ l ∈ c, v l.number = w l.number) :
    c.holds v = c.holds w := by
  induction c with
  | nil => rfl
  | cons l c ih =>
      obtain ⟨hl, hc⟩ := List.forall_mem_cons.1 h
      have ih := ih hc
      unfold Clause.holds at ih ⊢
      rw [List.any_cons, List.any_cons, ih, Literal.holds, Literal.holds, hl]

/-! ## Clause forms -/

namespace Cnf

theorem holds_iff {f : Cnf} : f.holds v = true ↔ Clause.AllHold v f.clauses.toList :=
  List.all_eq_true

theorem toList_foldl_add (f : Cnf) :
    (cs.foldl add f).clauses.toList = f.clauses.toList ++ cs := by
  induction cs generalizing f with
  | nil => simp
  | cons c cs ih =>
      rw [List.foldl_cons, ih, add, Array.toList_push, List.append_assoc, List.singleton_append]

/-- A clause form of clauses has these clauses. -/
theorem toList_ofClauses (cs : List Clause) : (ofClauses cs).clauses.toList = cs :=
  toList_foldl_add (ofCount 0)

/-- Clauses of the variables that are there add no variable. -/
theorem variableCount_foldl_add {f : Cnf} (h : ∀ c ∈ cs, c.largest ≤ f.variableCount) :
    (cs.foldl add f).variableCount = f.variableCount := by
  induction cs generalizing f with
  | nil => rfl
  | cons c cs ih =>
      obtain ⟨hc, hcs⟩ := List.forall_mem_cons.1 h
      have hadd : (f.add c).variableCount = f.variableCount := Nat.max_eq_left hc
      rw [List.foldl_cons, ih fun d hd => hadd ▸ hcs d hd, hadd]

/-- Clauses whose variables are not above a number need no further variables. -/
theorem variableCount_foldl_add_le {f : Cnf} {n : Nat} (hf : f.variableCount ≤ n)
    (h : ∀ c ∈ cs, c.largest ≤ n) : (cs.foldl add f).variableCount ≤ n := by
  induction cs generalizing f with
  | nil => exact hf
  | cons c cs ih =>
      obtain ⟨hc, hcs⟩ := List.forall_mem_cons.1 h
      exact ih (Nat.max_le.2 ⟨hf, hc⟩) hcs

/-- A clause form of clauses has just the variables that they need. -/
theorem variableCount_ofClauses_le_iff {n : Nat} :
    (ofClauses cs).variableCount ≤ n ↔ ∀ c ∈ cs, ∀ l ∈ c, l.number ≤ n := by
  refine ⟨fun hle c hc => ?_, fun h => ?_⟩
  · rw [← toList_ofClauses cs, Array.mem_toList_iff] at hc
    exact Clause.largest_le_iff.1 (Nat.le_trans ((ofClauses cs).largest_le c hc) hle)
  · exact variableCount_foldl_add_le (Nat.zero_le n) fun c hc => Clause.largest_le_iff.2 (h c hc)

theorem eq_of_toList {f g : Cnf} (hcount : f.variableCount = g.variableCount)
    (hclauses : f.clauses.toList = g.clauses.toList) : f = g := by
  obtain ⟨variableCount, clauses, _⟩ := f
  obtain ⟨variableCount', clauses', _⟩ := g
  cases hcount
  cases Array.toList_inj.1 hclauses
  rfl

/-- A clause form is built from its number of variables by adding its clauses. -/
theorem foldl_add_reserve (f : Cnf) :
    f.clauses.toList.foldl add ((ofCount 0).reserve f.variableCount) = f := by
  have hcount : ((ofCount 0).reserve f.variableCount).variableCount = f.variableCount :=
    Nat.zero_max _
  refine eq_of_toList ?_ (toList_foldl_add _)
  rw [variableCount_foldl_add, hcount]
  intro c hc
  rw [hcount]
  exact f.largest_le c (Array.mem_toList_iff.1 hc)

/-- Clauses see the variables up to their count only. -/
theorem holds_congr {f : Cnf} (h : ∀ n ≤ f.variableCount, v n = w n) :
    f.holds v = true ↔ f.holds w = true := by
  rw [holds_iff, holds_iff]
  refine forall₂_congr fun c hc => ?_
  have hlargest := f.largest_le c (Array.mem_toList_iff.1 hc)
  rw [Clause.holds_congr fun l hl => h _ (Nat.le_trans (Clause.number_le_largest hl) hlargest)]

end Cnf

end Presence
