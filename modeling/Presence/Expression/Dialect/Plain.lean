import Presence.Expression.Grammar

/-!
# Plain expressions

Identifiers are symbols.  The identifiers `1` and `0` are the truth values, as
in the canonical text of a formula, and every other symbol is an atom.
-/

namespace Presence.Plain

/-- A space, a tab or a line break. -/
def isSpace (c : Char) : Bool := c == ' ' || c == '\t' || c == '\r' || c == '\n'

/-- The meaning of an identifier. -/
def identifier (text : String) : Except ExpressionError Formula :=
  if text = "1" then .ok (.constant true)
  else if text = "0" then .ok (.constant false)
  else if isSymbol text.toList then .ok (.atom text)
  else .error (.invalidIdentifier text)

/-- The grammar of plain expressions. -/
def grammar : Grammar where
  operator? := Place.operator?
  isWhitespace p := isSpace p.here
  isOpening p := p.here == '('
  isClosing p := p.here == ')'
  isIdentifierChar p := isSymbolChar p.here
  identifier := identifier

end Presence.Plain
