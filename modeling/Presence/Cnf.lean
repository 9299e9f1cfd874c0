/-!
# Numbered clause form

A *literal* is a variable number with a sign, a *clause* a list of literals of
which one must hold, and a *numbered clause form* a row of clauses that must all
hold.  It also says how many variables there are, which may be more than the
clauses use but not fewer.
-/

namespace Presence

/-- The largest variable number that is supported, `2 ^ 28`. -/
def largestVariable : Nat := 0x10000000

/-- A variable number with a sign. -/
structure Literal where
  /-- The number of the variable, counted from 1. -/
  number : Nat
  /-- The variable must be true. -/
  positive : Bool
  deriving DecidableEq, Repr

namespace Literal

/-- The literal of the same variable and the other sign. -/
def negate (l : Literal) : Literal := { l with positive := !l.positive }

/-- The number with a minus sign in front if the variable must be false. -/
def render (l : Literal) : String :=
  if l.positive then toString l.number else "-" ++ toString l.number

/-- The literal holds if its variable has the value of its sign. -/
def holds (value : Nat → Bool) (l : Literal) : Bool := value l.number == l.positive

end Literal

/-- Literals of which one must hold. -/
abbrev Clause := List Literal

/-- One of the literals holds. -/
def Clause.holds (value : Nat → Bool) (c : Clause) : Bool := c.any (Literal.holds value)

/-- The largest variable number in a clause, 0 if there is none. -/
def Clause.largest (c : Clause) : Nat := (c.map Literal.number).foldl max 0

/-- Clauses that must all hold. -/
structure Cnf where
  /-- The number of variables. -/
  variableCount : Nat := 0
  /-- The clauses in order. -/
  clauses : Array Clause := #[]
  /-- There are all variables that the clauses use. -/
  largest_le : ∀ c ∈ clauses, c.largest ≤ variableCount := by
    exact fun c hc => absurd hc (Array.not_mem_empty c)
  deriving DecidableEq, Repr

namespace Cnf

/-- A number of variables without any clauses. -/
def ofCount (count : Nat) : Cnf where
  variableCount := count

/-- Makes room for a number of variables. -/
def reserve (f : Cnf) (count : Nat) : Cnf :=
  { f with
    variableCount := max f.variableCount count
    largest_le := fun c hc => Nat.le_trans (f.largest_le c hc) (Nat.le_max_left ..) }

/-- Adds a clause at the end and makes room for its variables. -/
def add (f : Cnf) (c : Clause) : Cnf where
  variableCount := max f.variableCount c.largest
  clauses := f.clauses.push c
  largest_le := by
    intro d hd
    rcases Array.mem_push.1 hd with hd | rfl
    · exact Nat.le_trans (f.largest_le d hd) (Nat.le_max_left ..)
    · exact Nat.le_max_right ..

/-- The clause form of a list of clauses. -/
def ofClauses (cs : List Clause) : Cnf := cs.foldl add (ofCount 0)

/-- All clauses hold. -/
def holds (value : Nat → Bool) (f : Cnf) : Bool := f.clauses.toList.all (Clause.holds value)

end Cnf

end Presence
