import Presence.ClauseForm.Conversion
import Presence.ClauseForm.Policy
import Presence.Cnf

/-!
# Numbered clauses

The leaves of a clause become literals, from left to right, with the numbers
that a table has for their names.  The first name without a number is a fault.

Unless the policy says that such a name is a fault for good, the name gets a
number and the clause is numbered again from its start (`Numbered.ofClause`).
Every try but the last gives a number to a name of the clause that had none, so there
are never more tries than leaves, and one more.
-/

namespace Presence

/-- Why a clause has no literals. -/
inductive NumberingError where
  /-- It cannot be used as a constraint. -/
  | constraint (cause : ConstraintError)
  /-- One of its names has no number. -/
  | unknownName (cause : UnknownName)
  deriving DecidableEq, Repr

/-- The wording of a fault. -/
def NumberingError.message : NumberingError → String
  | constraint cause => cause.message
  | unknownName cause => cause.message

/-- The literal of an atom. -/
def NameTable.literal (t : NameTable) (name : String) (positive : Bool) :
    Except NumberingError Literal :=
  match t.lookup name with
  | .ok number => .ok ⟨number, positive⟩
  | .error cause => .error (.unknownName cause)

namespace Formula

/-- The literals of the clauses on a stack; `whole` is the clause that a fault
reports. -/
def literalsFrom (t : NameTable) (whole : Formula) : List Formula → Except NumberingError Clause
  | [] => .ok []
  | f :: stack =>
      match f with
      | atom name => do
          let l ← t.literal name true
          let rest ← literalsFrom t whole stack
          return l :: rest
      | negation (atom name) => do
          let l ← t.literal name false
          let rest ← literalsFrom t whole stack
          return l :: rest
      | disjunction left right => literalsFrom t whole (left :: right :: stack)
      | _ => .error (.constraint (.notAClause whole.render))
termination_by stack => stackSize stack
decreasing_by all_goals (simp only [stackSize, nodeCount]; omega)

/-- The literals of a clause from left to right. -/
def literals (t : NameTable) (clause : Formula) : Except NumberingError Clause :=
  literalsFrom t clause [clause]

end Formula

/-- Numbered clauses with what was added to the table for them. -/
structure Numbered where
  /-- The clauses in order. -/
  clauses : List Clause
  /-- The names that had no number before, in order, with their numbers. -/
  added : List (String × Nat)
  /-- The table with the added names. -/
  table : NameTable

namespace Numbered

/-- What a policy asserts about a name that it gives a number. -/
def assertion : Policy → Nat → List Clause
  | .closedWorld, number => [[⟨number, false⟩]]
  | _, _ => []

/-- A clause after `tries` more names at most have been given numbers. -/
def within (policy : Policy) (clause : Formula) :
    (tries : Nat) → NameTable → Except NumberingError Numbered
  | tries, t =>
      match clause.literals t with
      | .ok literals => .ok ⟨[literals], [], t⟩
      | .error (.constraint cause) => .error (.constraint cause)
      | .error (.unknownName cause) =>
          match policy, tries with
          | .fail, _ | _, 0 => .error (.unknownName cause)
          | _, tries + 1 => do
              let number := t.numberOf cause.name
              let rest ← within policy clause tries (t.add cause.name)
              return ⟨assertion policy number ++ rest.clauses, (cause.name, number) :: rest.added,
                rest.table⟩

/-- A clause with what the policy asserts about its unknown names in front. -/
def ofClause (policy : Policy) (t : NameTable) (clause : Formula) :
    Except NumberingError Numbered :=
  within policy clause clause.leafCount t

/-- Numbers clauses in order, each with the table that the ones before it left. -/
def ofClauses (policy : Policy) (t : NameTable) : List Formula → Except NumberingError Numbered
  | [] => .ok ⟨[], [], t⟩
  | clause :: clauses => do
      let first ← ofClause policy t clause
      let rest ← ofClauses policy first.table clauses
      return ⟨first.clauses ++ rest.clauses, first.added ++ rest.added, rest.table⟩

end Numbered

end Presence
