import Presence.Cnf

/-!
# Splitting

Whether clauses can all hold is decided by trying both values of a variable.
The variable is that of the first literal of a shortest clause.  A clause of one
literal thus leaves no choice: making the literal false leaves an empty clause,
which no later choice can satisfy.

Every choice removes the literal or its clause, so splitting ends.  It learns
nothing from a choice that failed, and so it suits few clauses only.
-/

namespace Presence.Search

/-- A clause without more literals than any other, the first such. -/
def shortest? : List Clause → Option Clause
  | [] => none
  | c :: cs =>
      match shortest? cs with
      | some d => if d.length < c.length then some d else some c
      | none => some c

/-- The clauses that still have to hold once a literal does, without its negation. -/
def assume (l : Literal) (cs : List Clause) : List Clause :=
  (cs.filter fun c => !c.contains l).map fun c => c.filter fun k => k != l.negate

/-- The number of literals in clauses. -/
def literalCount (cs : List Clause) : Nat := cs.foldr (fun c count => c.length + count) 0

theorem shortest?_mem {cs : List Clause} {c : Clause} (h : shortest? cs = some c) : c ∈ cs := by
  induction cs generalizing c with
  | nil => simp [shortest?] at h
  | cons d ds ih =>
      simp only [shortest?] at h
      split at h
      next e he =>
        split at h
        · cases h
          exact List.mem_cons_of_mem _ (ih he)
        · cases h
          exact List.mem_cons_self
      next => cases h; exact List.mem_cons_self

theorem literalCount_cons (c : Clause) (cs : List Clause) :
    literalCount (c :: cs) = c.length + literalCount cs := rfl

theorem assume_cons (l : Literal) (c : Clause) (cs : List Clause) :
    assume l (c :: cs) =
      if c.contains l then assume l cs else (c.filter fun k => k != l.negate) :: assume l cs := by
  by_cases h : l ∈ c <;> simp [assume, h]

theorem literalCount_assume_le (l : Literal) (cs : List Clause) :
    literalCount (assume l cs) ≤ literalCount cs := by
  induction cs with
  | nil => simp [assume]
  | cons c cs ih =>
      have := List.length_filter_le (fun k => k != l.negate) c
      rw [assume_cons]
      split <;> simp only [literalCount_cons] <;> omega

/-- A literal that occurs, or whose negation does, is gone once it is settled. -/
theorem literalCount_assume_lt {l k : Literal} {c : Clause} {cs : List Clause}
    (hl : k = l ∨ k = l.negate) (hk : k ∈ c) (hc : c ∈ cs) :
    literalCount (assume l cs) < literalCount cs := by
  induction cs with
  | nil => simp at hc
  | cons d ds ih =>
      have hd := List.length_filter_le (fun k => k != l.negate) d
      have hds := literalCount_assume_le l ds
      rw [assume_cons]
      rcases List.mem_cons.1 hc with rfl | hmem
      · have hpos := List.length_pos_of_mem hk
        split
        · simp only [literalCount_cons]; omega
        next hn =>
          have hlt : (c.filter fun k => k != l.negate).length < c.length := by
            rcases hl with rfl | rfl
            · simp_all
            · exact List.length_filter_lt_length_iff_exists.2 ⟨_, hk, by simp⟩
          simp only [literalCount_cons]; omega
      · have := ih hmem
        split <;> simp only [literalCount_cons] <;> omega

/-- Some assignment of truth values to variables makes all clauses hold, which is
found out by splitting. -/
def splits (cs : List Clause) : Bool :=
  match _found : shortest? cs with
  | none => true
  | some [] => false
  | some (l :: _) => splits (assume l cs) || splits (assume l.negate cs)
termination_by literalCount cs
decreasing_by
  · exact literalCount_assume_lt (Or.inl rfl) List.mem_cons_self (shortest?_mem _found)
  · exact literalCount_assume_lt (Or.inr (by simp [Literal.negate])) List.mem_cons_self
      (shortest?_mem _found)

end Presence.Search
