import Presence.Expression.Lexer
import Presence.Expression.Outline
import Presence.Interner

/-!
# Parsers

A parser is a grammar with a limit on the nesting of expressions.  It reads the
tokens of a text, outlines them and interprets the outline.

`Parser.parseInterning` also hands the names it meets to an interner.  Names
that come before a fault are handed over too.  `Parser.parsePassingOn` does so
at the place where it meets each name.
-/

namespace Presence

/-- A reader of expressions. -/
structure Parser where
  /-- The grammar of the expressions. -/
  grammar : Grammar
  /-- The deepest nesting that is accepted. -/
  maxDepth : Nat := 1000

namespace Parser

/-- The result of parsing tokens, with the names met up to the first fault. -/
def readTokens (p : Parser) (tokens : List Token) :
    List String × Except ExpressionError Formula :=
  (Outline.ofTokens p.maxDepth (p.maxDepth + 1) tokens).interpret p.grammar

/-- The result of parsing a text, with the names met up to the first fault. -/
def read (p : Parser) (text : String) : List String × Except ExpressionError Formula :=
  match p.grammar.tokens text with
  | .error cause => ([], .error cause)
  | .ok tokens => p.readTokens tokens

/-- The formula that a text stands for. -/
def parse (p : Parser) (text : String) : Except ExpressionError Formula := (p.read text).2

/-- Parses a text and interns the names it met. -/
def parseInterning (p : Parser) (i : Interner) (text : String) :
    Interner × Except ExpressionError Formula :=
  let (names, result) := p.read text
  (i.internAll names, result)

end Parser

/-! ## Interning along the way -/

/-- The formula of an outline, where the names of an identifier are interned once its meaning is
known.  The right operand goes on with the interner of the left one, and a fault keeps what was
interned. -/
def Outline.interpretInterning (g : Grammar) :
    Outline → Interner → Interner × Except ExpressionError Formula
  | identifier text, i =>
      match g.identifier text with
      | .ok f => (i.internAll f.atoms, .ok f)
      | .error cause => (i, .error cause)
  | unary op operand, i =>
      match operand.interpretInterning g i with
      | (i, .ok f) => (i, g.unary op f)
      | (i, .error cause) => (i, .error cause)
  | binary op left right, i =>
      match left.interpretInterning g i with
      | (i, .error cause) => (i, .error cause)
      | (i, .ok l) =>
          match right.interpretInterning g i with
          | (i, .ok r) => (i, g.binary op l r)
          | (i, .error cause) => (i, .error cause)
  | fault cause, i => (i, .error cause)

/-- Reads a text and interns its names as they are met. -/
def Parser.parsePassingOn (p : Parser) (i : Interner) (text : String) :
    Interner × Except ExpressionError Formula :=
  match p.grammar.tokens text with
  | .error cause => (i, .error cause)
  | .ok tokens =>
      (Outline.ofTokens p.maxDepth (p.maxDepth + 1) tokens).interpretInterning p.grammar i

end Presence
