import Presence.Expression.Grammar

/-!
# Outlines of expressions

The *outline* of a row of tokens is the tree of its operators and identifiers,
before any of them is given a meaning.  The tokens are split at an operator
outside all brackets (`rootOperator`), and both sides are outlined in turn.
Without such an operator one pair of brackets around the tokens is stripped.
Every split and every pair of brackets costs one level of nesting.

A row of tokens that has no tree still has an outline.  The subtree that went
wrong is a leaf `fault` with the cause.  `Outline.interpret` then gives the
identifiers and operators their meaning from left to right, so the leftmost
fault is the one that is reported, and it comes after the names of all
identifiers on its left.
-/

namespace Presence

/-! ## The operator at the root -/

/-- An operator among the tokens, with the number of brackets open around it. -/
structure Candidate where
  /-- The number of tokens before it. -/
  index : Nat
  /-- The number of brackets that are open at it. -/
  level : Nat
  /-- The operator. -/
  op : Operator
  deriving DecidableEq, Repr

/-- The better of the best candidate so far and a later one.  The later one takes its
place if it stands in fewer brackets, or in equally many and binds looser. -/
@[inline]
def Candidate.better (best : Option Candidate) (later : Candidate) : Option Candidate :=
  match best with
  | none => some later
  | some earlier =>
      if later.level < earlier.level ∨
          (later.level = earlier.level ∧ later.op.precedence > earlier.op.precedence) then some later
      else best

/-- The best candidate of a row of tokens, where `index` tokens came before it,
`level` brackets are open and `best` is the best candidate so far.  There is no
result if the brackets do not pair up. -/
def scanOperators (level index : Nat) (best : Option Candidate) :
    List Token → Option (Option Candidate)
  | [] => if level = 0 then some best else none
  | .opening :: tokens => scanOperators (level + 1) (index + 1) best tokens
  | .closing :: tokens =>
      match level with
      | 0 => none
      | level + 1 => scanOperators level (index + 1) best tokens
  | .operator op :: tokens =>
      scanOperators level (index + 1) (Candidate.better best ⟨index, level, op⟩) tokens
  | .identifier _ :: tokens => scanOperators level (index + 1) best tokens

/-- The operator at which a row of tokens is split, with the number of tokens
before it: outside all brackets, of the loosest binding, and the first such. -/
def rootOperator (tokens : List Token) : Except ExpressionError (Option (Nat × Operator)) :=
  match scanOperators 0 0 none tokens with
  | none => .error .unbalancedBrackets
  | some none => .ok none
  | some (some best) => .ok (if best.level = 0 then some (best.index, best.op) else none)

/-! ## Outlines -/

/-- The tree of operators and identifiers of an expression. -/
inductive Outline where
  /-- An identifier. -/
  | identifier (text : String)
  /-- A unary operator with its operand. -/
  | unary (op : Operator) (operand : Outline)
  /-- A binary operator with its operands. -/
  | binary (op : Operator) (left right : Outline)
  /-- Tokens that form no tree. -/
  | fault (cause : ExpressionError)
  deriving Repr

namespace Outline

/-- What is left of tokens without an operator outside of brackets, once the
brackets around them are stripped. -/
def stripBrackets (tokens : List Token) : Except ExpressionError (List Token) :=
  match tokens.head?, tokens.getLast? with
  | some .opening, some .closing => .ok tokens.tail.dropLast
  | some .opening, some .opening
  | some .closing, some .opening
  | some .closing, some .closing => .error .unbalancedBrackets
  | _, _ => .error .missingOperator

/-- The outline of a row of tokens that may be nested `levels - 1` levels deep.
`maxDepth` is the limit that a fault reports. -/
def ofTokens (maxDepth : Nat) : (levels : Nat) → List Token → Outline
  | 0, _ => fault (.tooDeep maxDepth)
  | _ + 1, [] => fault .missingIdentifier
  | _ + 1, [.identifier text] => identifier text
  | _ + 1, [token] => fault (.expectedIdentifier token)
  | levels + 1, tokens =>
      match rootOperator tokens with
      | .error cause => fault cause
      | .ok (some (index, op)) =>
          match op.arity with
          | .unary =>
              if index = 0 then unary op (ofTokens maxDepth levels tokens.tail)
              else fault (.misplacedUnaryOperator op.symbol)
          | .binary =>
              binary op (ofTokens maxDepth levels (tokens.take index))
                (ofTokens maxDepth levels (tokens.drop (index + 1)))
      | .ok none =>
          match stripBrackets tokens with
          | .error cause => fault cause
          | .ok inner => ofTokens maxDepth levels inner

/-! ## Meaning -/

/-- The formula of an outline together with the names that its identifiers
stood for, in order, up to the first fault. -/
def interpret (g : Grammar) : Outline → List String × Except ExpressionError Formula
  | identifier text =>
      match g.identifier text with
      | .ok f => (f.atoms, .ok f)
      | .error cause => ([], .error cause)
  | unary op operand =>
      match operand.interpret g with
      | (names, .ok f) => (names, g.unary op f)
      | (names, .error cause) => (names, .error cause)
  | binary op left right =>
      match left.interpret g with
      | (names, .error cause) => (names, .error cause)
      | (names, .ok l) =>
          match right.interpret g with
          | (more, .ok r) => (names ++ more, g.binary op l r)
          | (more, .error cause) => (names ++ more, .error cause)
  | fault cause => ([], .error cause)

end Outline

end Presence
