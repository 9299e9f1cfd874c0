import Presence.Expression.Error
import Presence.Formula.Basic

/-!
# Grammars

A *grammar* says how the characters of an expression are to be read and what
its identifiers and operators mean.  It is asked about one *place* of the text
at a time and sees the characters on both sides, so that the class of a
character may depend on its neighbours.

The classes are asked independently of each other.  Which of them wins where
several hold is settled by the reading of tokens, not here.
-/

namespace Presence

/-! ## Places in a text -/

/-- A character of a text with everything around it. -/
structure Place where
  /-- The characters before it, the nearest first. -/
  before : List Char
  /-- The character itself. -/
  here : Char
  /-- The characters after it. -/
  after : List Char
  deriving DecidableEq, Repr

/-- The symbol is written at the place. -/
def Place.startsWith (p : Place) (symbol : String) : Bool :=
  symbol.toList.isPrefixOf (p.here :: p.after)

/-- The places of a text, where `before` is what has been passed already. -/
def Place.listFrom (before : List Char) : List Char → List Place
  | [] => []
  | c :: rest => ⟨before, c, rest⟩ :: listFrom (c :: before) rest

/-- The places of a text in order. -/
def Place.list (text : String) : List Place := listFrom [] text.toList

/-- The symbol is written in the text at the position, counted from 0.  Past
the end of the text only the empty symbol is written. -/
def writtenAt (text : String) (position : Nat) (symbol : String) : Bool :=
  symbol.toList.isPrefixOf (text.toList.drop position)

/-! ## Symbols -/

/-- An ASCII letter, an ASCII digit or an underscore. -/
def isSymbolChar (c : Char) : Bool := c.isAlphanum || c == '_'

/-- A text that can name a configuration symbol. -/
def isSymbol (text : List Char) : Bool := !text.isEmpty && text.all isSymbolChar

/-- The operator `!`, `&&` or `||` written at the place. -/
def Place.operator? (p : Place) : Option Operator :=
  [Operator.not, .and, .or].find? fun op => p.startsWith op.symbol

/-! ## Meaning of operators -/

/-- Only `!` is a known unary operator. -/
def Operator.applyUnary (op : Operator) (operand : Formula) : Except ExpressionError Formula :=
  if op.arity = .unary ∧ op.symbol = "!" then .ok (.negation operand)
  else .error (.unknownOperator op.symbol)

/-- Only `&&` and `||` are known binary operators. -/
def Operator.applyBinary (op : Operator) (left right : Formula) :
    Except ExpressionError Formula :=
  if op.arity = .binary ∧ op.symbol = "&&" then .ok (.conjunction left right)
  else if op.arity = .binary ∧ op.symbol = "||" then .ok (.disjunction left right)
  else .error (.unknownOperator op.symbol)

/-! ## Grammars -/

/-- How the characters of an expression are read. -/
structure Grammar where
  /-- The operator that begins at a place. -/
  operator? : Place → Option Operator
  /-- The character separates tokens and is no part of any. -/
  isWhitespace : Place → Bool
  /-- The character opens a bracket. -/
  isOpening : Place → Bool
  /-- The character closes a bracket. -/
  isClosing : Place → Bool
  /-- The character is part of an identifier. -/
  isIdentifierChar : Place → Bool
  /-- The formula that an identifier stands for. -/
  identifier : String → Except ExpressionError Formula
  /-- The formula of a unary operator and its operand. -/
  unary : Operator → Formula → Except ExpressionError Formula := Operator.applyUnary
  /-- The formula of a binary operator and its operands. -/
  binary : Operator → Formula → Formula → Except ExpressionError Formula :=
    Operator.applyBinary

end Presence
