import Presence.ClauseForm.Conversion

/-!
# Conversion in place

A table that is handed over for a conversion may be changed as the conversion
goes along: the atoms for truth values are added before these are replaced, and
a new name is added before the sides that it chooses between are converted.  A
fault after that would leave the table half-changed.

`InPlace` are the computations whose changes stay after a fault, and
`convertInPlace` is the conversion of a formula as such a computation, which
looks at the limit at every level.
-/

namespace Presence.ClauseForm

open Formula

/-- A computation that changes a supply, even if it ends with a fault. -/
abbrev InPlace (α : Type) : Type := ExceptT ConstraintError (StateM Supply) α

namespace InPlace

/-- What a computation comes to and the supply that it leaves. -/
def outcome {α : Type} (x : InPlace α) (s : Supply) : Except ConstraintError α × Supply :=
  x.run.run s

/-- Hands out a new name. -/
def fresh : InPlace String := modifyGet Supply.fresh

/-- Hands out the names of the atoms for truth values. -/
def registerPseudo : InPlace Unit :=
  modify fun s => (s.register pseudoTrue).register pseudoFalse

/-- The formula with atoms in place of the truth values, nested at most `levels - 1` levels deep. -/
def withoutConstants (maxDepth : Nat) : (levels : Nat) → Formula → InPlace Formula
  | 0, _ => throw (.tooDeep maxDepth)
  | _ + 1, constant true => pure (atom pseudoTrue)
  | _ + 1, constant false => pure (atom pseudoFalse)
  | _ + 1, atom name => pure (atom name)
  | levels + 1, negation f => do
      let f ← withoutConstants maxDepth levels f
      return negation f
  | levels + 1, conjunction l r => do
      let l ← withoutConstants maxDepth levels l
      let r ← withoutConstants maxDepth levels r
      return conjunction l r
  | levels + 1, disjunction l r => do
      let l ← withoutConstants maxDepth levels l
      let r ← withoutConstants maxDepth levels r
      return disjunction l r

/-- The clauses of a formula without truth values, nested at most `levels - 1` levels deep. -/
def clauses (strategy : Strategy) (maxDepth : Nat) :
    (levels : Nat) → Formula → InPlace (List Formula)
  | 0, _ => throw (.tooDeep maxDepth)
  | levels + 1, f =>
      match f.outermost with
      | .literal => pure [f]
      | .truth value => throw (.unexpectedConstant value)
      | .doubleNegation g =>
          match levels with
          | 0 => throw (.tooDeep maxDepth)
          | levels + 1 => clauses strategy maxDepth levels g
      | .both l r => do
          let left ← clauses strategy maxDepth levels l
          let right ← clauses strategy maxDepth levels r
          return left ++ right
      | .either l r =>
          if strategy = .replacing ∧ l.isCompound ∧ r.isCompound then do
            let z ← fresh
            let left ← clauses strategy maxDepth levels l
            let right ← clauses strategy maxDepth levels r
            return distribute [negation (atom z)] left ++ distribute [atom z] right
          else do
            let left ← clauses strategy maxDepth levels l
            let right ← clauses strategy maxDepth levels r
            return distribute left right

/-- The clauses of a formula. -/
def ofFormula (strategy : Strategy) (maxDepth : Nat) (f : Formula) : InPlace (List Formula) :=
  if f.depth > maxDepth + 1 then throw (.tooDeep maxDepth)
  else if f.containsConstants then do
    registerPseudo
    let g ← withoutConstants maxDepth (maxDepth + 1) f
    let form ← clauses strategy maxDepth (maxDepth + 1) g
    return atom pseudoTrue :: negation (atom pseudoFalse) :: form
  else clauses strategy maxDepth (maxDepth + 1) f

end InPlace

/-- The clauses of a formula and what a conversion leaves of the table that it was given. -/
def convertInPlace (strategy : Strategy) (maxDepth : Nat) (table : Option NameTable)
    (f : Formula) : Except ConstraintError (List Formula) × Option NameTable :=
  let (result, supply) := (InPlace.ofFormula strategy maxDepth f).outcome (startSupply table f)
  (result, supply.table)

end Presence.ClauseForm
