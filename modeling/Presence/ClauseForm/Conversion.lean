import Presence.ClauseForm.Error
import Presence.ClauseForm.Supply
import Presence.Formula.Walk

/-!
# Clause form

A formula is brought into *clause form*, a list of clauses that are to hold
together.  Negations are pushed down to the atoms, conjunctions become
concatenation, and disjunctions are joined by one of two strategies.

* *Distributive*: every clause of one side is joined with every clause of the
  other.  The result is equivalent to the formula but can be exponentially long.
* *Replacing*: a disjunction of two compound sides gets a new atom `z`.  The
  left side is joined with `!z` and the right side with `z`.  The result is
  satisfiable together with exactly the same values of the other atoms, and its
  length is at most quadratic.

Truth values are first replaced by two atoms of their own, which the first two
clauses force to be true and false.
-/

namespace Presence

/-- How disjunctions of compound formulas are converted. -/
inductive Strategy where
  /-- Join all clauses of both sides. -/
  | distributive
  /-- Choose a side by a new atom. -/
  | replacing
  deriving DecidableEq, Repr

namespace Strategy

/-- The name of a strategy. -/
def name : Strategy → String
  | distributive => "distributive"
  | replacing => "replacing"

/-- The strategies in the order in which they are listed. -/
def all : List Strategy := [distributive, replacing]

/-- The strategy of a name. -/
def ofName? (name : String) : Option Strategy := all.find? fun s => s.name == name

end Strategy

/-- The nesting of formulas that is accepted unless another limit is set. -/
def defaultMaxDepth : Nat := 1000

/-- The name of the atom that stands for `true`. -/
def pseudoTrue : String := "PSEUDO_TRUE"

/-- The name of the atom that stands for `false`. -/
def pseudoFalse : String := "PSEUDO_FALSE"

namespace Formula

/-- The formula with atoms in place of the truth values. -/
def withoutConstants : Formula → Formula
  | constant true => atom pseudoTrue
  | constant false => atom pseudoFalse
  | atom name => atom name
  | negation f => negation f.withoutConstants
  | conjunction l r => conjunction l.withoutConstants r.withoutConstants
  | disjunction l r => disjunction l.withoutConstants r.withoutConstants

/-- A formula with a binary node below its negations. -/
def isCompound : Formula → Bool
  | negation f => f.isCompound
  | constant _ | atom _ => false
  | conjunction _ _ | disjunction _ _ => true

/-- What a formula amounts to at its root, with the negation of a compound
formula pushed below. -/
inductive Outermost where
  /-- An atom or its negation. -/
  | literal
  /-- A truth value. -/
  | truth (value : Bool)
  /-- The formula below two negations. -/
  | doubleNegation (f : Formula)
  /-- Both formulas hold. -/
  | both (left right : Formula)
  /-- One of the formulas holds. -/
  | either (left right : Formula)

/-- The outermost connective of a formula. -/
def outermost : Formula → Outermost
  | constant value => .truth value
  | atom _ => .literal
  | conjunction l r => .both l r
  | disjunction l r => .either l r
  | negation (constant value) => .truth !value
  | negation (atom _) => .literal
  | negation (negation f) => .doubleNegation f
  | negation (disjunction l r) => .both (negation l) (negation r)
  | negation (conjunction l r) => .either (negation l) (negation r)

end Formula

/-- The clauses of a formula with what is left of the supply of names. -/
structure ClauseForm where
  /-- The clauses in order. -/
  clauses : List Formula
  /-- The supply without the names that occur in the clauses. -/
  supply : Supply

namespace ClauseForm

open Formula

/-- Every clause of one list joined with every clause of another. -/
def distribute (left right : List Formula) : List Formula :=
  left.flatMap fun l => right.map fun r => disjunction l r

/-- The clauses of a formula without truth values, nested at most `levels - 1`
levels deep.  `maxDepth` is the limit that a fault reports. -/
def clausesOf (strategy : Strategy) (maxDepth : Nat) :
    (levels : Nat) → Supply → Formula → Except ConstraintError ClauseForm
  | 0, _, _ => .error (.tooDeep maxDepth)
  | levels + 1, supply, f =>
      match f.outermost with
      | .literal => .ok ⟨[f], supply⟩
      | .truth value => .error (.unexpectedConstant value)
      | .doubleNegation g =>
          match levels with
          | 0 => .error (.tooDeep maxDepth)
          | levels + 1 => clausesOf strategy maxDepth levels supply g
      | .both l r => do
          let left ← clausesOf strategy maxDepth levels supply l
          let right ← clausesOf strategy maxDepth levels left.supply r
          return ⟨left.clauses ++ right.clauses, right.supply⟩
      | .either l r =>
          if strategy = .replacing ∧ l.isCompound ∧ r.isCompound then do
            let z := atom supply.fresh.1
            let left ← clausesOf strategy maxDepth levels supply.fresh.2 l
            let right ← clausesOf strategy maxDepth levels left.supply r
            return ⟨distribute [negation z] left.clauses ++ distribute [z] right.clauses,
              right.supply⟩
          else do
            let left ← clausesOf strategy maxDepth levels supply l
            let right ← clausesOf strategy maxDepth levels left.supply r
            return ⟨distribute left.clauses right.clauses, right.supply⟩

/-- The supply of a conversion before any name is handed out. -/
def startSupply (table : Option NameTable) (f : Formula) : Supply :=
  { table, taken := Std.TreeSet.ofList f.names }

/-- The supply once both atoms for the truth values are handed out. -/
def pseudoSupply (table : Option NameTable) (f : Formula) : Supply :=
  ((startSupply table f).register pseudoTrue).register pseudoFalse

/-- The clause form of a formula.  New names are added to the table, if there is
one, and differ from the names of the formula and of the table. -/
def ofFormula (strategy : Strategy) (maxDepth : Nat) (table : Option NameTable) (f : Formula) :
    Except ConstraintError ClauseForm :=
  if f.depth > maxDepth + 1 then .error (.tooDeep maxDepth)
  else if f.containsConstants then do
    let form ←
      clausesOf strategy maxDepth (maxDepth + 1) (pseudoSupply table f) f.withoutConstants
    return { form with clauses := atom pseudoTrue :: negation (atom pseudoFalse) :: form.clauses }
  else clausesOf strategy maxDepth (maxDepth + 1) (startSupply table f) f

end ClauseForm

end Presence
