/-!
# Tokens of expressions

An expression is a row of brackets, operators and identifiers.  An operator has
one or two operands and a precedence.  The operator of the highest precedence
value binds loosest, so it becomes the root of the expression that it stands in.
-/

namespace Presence

/-- How many operands an operator takes. -/
inductive Arity where
  /-- One operand, on the right of the operator. -/
  | unary
  /-- An operand on each side. -/
  | binary
  deriving DecidableEq, Repr

/-- An operator as it is written in an expression. -/
structure Operator where
  /-- The text of the operator. -/
  symbol : String
  /-- The number of operands. -/
  arity : Arity
  /-- How loosely the operator binds. -/
  precedence : Nat
  deriving DecidableEq, Repr

namespace Operator

/-- The number of characters of the operator. -/
def width (op : Operator) : Nat := op.symbol.length

/-- Negation, written `!`. -/
def not : Operator := ⟨"!", .unary, 1⟩

/-- Conjunction, written `&&`. -/
def and : Operator := ⟨"&&", .binary, 2⟩

/-- Disjunction, written `||`. -/
def or : Operator := ⟨"||", .binary, 3⟩

end Operator

/-- A unit of an expression. -/
inductive Token where
  /-- The bracket `(`, or what a grammar takes for it. -/
  | opening
  /-- The bracket `)`, or what a grammar takes for it. -/
  | closing
  /-- An operator. -/
  | operator (op : Operator)
  /-- A run of identifier characters. -/
  | identifier (text : String)
  deriving DecidableEq, Repr

/-- What a token is called in messages. -/
def Token.describe : Token → String
  | opening => "opening bracket"
  | closing => "closing bracket"
  | operator op => "operator '" ++ op.symbol ++ "'"
  | identifier text => "identifier '" ++ text ++ "'"

end Presence
