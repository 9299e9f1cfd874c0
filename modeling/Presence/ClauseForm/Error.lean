import Presence.Formula.Basic

/-!
# Faults of constraints

Why a formula has no clause form, or a clause no literals.
-/

namespace Presence

/-- Why a formula cannot be used as a constraint. -/
inductive ConstraintError where
  /-- A truth value stands where only atoms can. -/
  | unexpectedConstant (value : Bool)
  /-- The formula is no clause; it is kept as its canonical text. -/
  | notAClause (clause : String)
  /-- The formula is nested deeper than the limit. -/
  | tooDeep (maxDepth : Nat)
  deriving DecidableEq, Repr

/-- The wording of a fault. -/
def ConstraintError.message : ConstraintError → String
  | unexpectedConstant value =>
      "Constant " ++ toString value ++ " left after constant replacement"
  | notAClause clause => "Not a clause: " ++ clause
  | tooDeep maxDepth =>
      "Formula nesting exceeds the maximum depth of " ++ toString maxDepth

end Presence
