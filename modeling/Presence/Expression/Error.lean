import Presence.Expression.Token

/-!
# Faults of expressions

Each way in which a text fails to be an expression is one constructor, and
`ExpressionError.message` has the wording of all of them.
-/

namespace Presence

/-- Why a text is not an expression. -/
inductive ExpressionError where
  /-- A character that belongs to no token; positions count characters from 0. -/
  | invalidCharacter (position : Nat) (character : Char)
  /-- Nothing stands where an operand belongs. -/
  | missingIdentifier
  /-- A single token that is no identifier stands where an operand belongs. -/
  | expectedIdentifier (found : Token)
  /-- Opening and closing brackets do not pair up. -/
  | unbalancedBrackets
  /-- Several tokens stand side by side without an operator. -/
  | missingOperator
  /-- A unary operator has something on its left. -/
  | misplacedUnaryOperator (symbol : String)
  /-- The operator has no meaning. -/
  | unknownOperator (symbol : String)
  /-- The identifier names nothing. -/
  | invalidIdentifier (text : String)
  /-- The expression is nested deeper than the limit. -/
  | tooDeep (maxDepth : Nat)
  deriving DecidableEq, Repr

/-- The wording of a fault. -/
def ExpressionError.message : ExpressionError → String
  | invalidCharacter position character =>
      "Invalid character in expression at position " ++ toString position ++ ": '" ++
        String.singleton character ++ "'"
  | missingIdentifier => "Expected identifier"
  | expectedIdentifier found => "Expected identifier, got " ++ found.describe
  | unbalancedBrackets => "Unbalanced brackets"
  | missingOperator => "Couldn't find operator"
  | misplacedUnaryOperator symbol => "Unary operator '" ++ symbol ++ "' is not on the left"
  | unknownOperator symbol => "Unknown operator '" ++ symbol ++ "'"
  | invalidIdentifier text => "Invalid identifier: " ++ text
  | tooDeep maxDepth =>
      "Expression nesting exceeds the maximum depth of " ++ toString maxDepth

end Presence
