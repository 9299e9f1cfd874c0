import Presence.Expression.Grammar

/-!
# Reading tokens

A text becomes tokens in two steps.  First each character that is not skipped
gets a *piece*: at each place the grammar is asked for an operator, whitespace,
an opening bracket, a closing bracket and an identifier character, in this
order, and the first yes decides.  An operator then skips the rest of its
characters, but the text always moves on by at least one.  Then runs of letters
that nothing separates are joined into identifiers.

Only the first step can fail, at the first character that has no class.
-/

namespace Presence

/-- The class of a character, or the operator that begins at it. -/
inductive Piece where
  /-- An operator begins here. -/
  | operator (op : Operator)
  /-- Whitespace. -/
  | whitespace
  /-- An opening bracket. -/
  | opening
  /-- A closing bracket. -/
  | closing
  /-- A character of an identifier. -/
  | letter (c : Char)
  deriving DecidableEq, Repr

/-- How many characters of the text belong to the piece beside the first. -/
def Piece.tail : Piece → Nat
  | operator op => op.width - 1
  | _ => 0

/-- The first class that the grammar finds at a place. -/
def Grammar.piece? (g : Grammar) (p : Place) : Option Piece :=
  match g.operator? p with
  | some op => some (.operator op)
  | none =>
      if g.isWhitespace p then some .whitespace
      else if g.isOpening p then some .opening
      else if g.isClosing p then some .closing
      else if g.isIdentifierChar p then some (.letter p.here)
      else none

/-- The pieces of a text, where `before` has been passed and the next `skip`
characters belong to an operator. -/
def Grammar.piecesFrom (g : Grammar) (before : List Char) :
    (skip : Nat) → List Char → Except ExpressionError (List Piece)
  | _, [] => .ok []
  | skip + 1, c :: rest => g.piecesFrom (c :: before) skip rest
  | 0, c :: rest =>
      match g.piece? ⟨before, c, rest⟩ with
      | none => .error (.invalidCharacter before.length c)
      | some piece => (g.piecesFrom (c :: before) piece.tail rest).map (piece :: ·)

/-- The identifier of a run of letters, given last letter first.  No letters
make no identifier. -/
def Token.ofLetters : (letters : List Char) → List Token
  | [] => []
  | letters => [.identifier (String.ofList letters.reverse)]

/-- The tokens of a row of pieces, where `letters` is the run of letters right
before it, the last letter first. -/
def Token.ofPieces (letters : List Char) : List Piece → List Token
  | [] => ofLetters letters
  | .letter c :: pieces => ofPieces (c :: letters) pieces
  | .whitespace :: pieces => ofLetters letters ++ ofPieces [] pieces
  | .opening :: pieces => ofLetters letters ++ .opening :: ofPieces [] pieces
  | .closing :: pieces => ofLetters letters ++ .closing :: ofPieces [] pieces
  | .operator op :: pieces => ofLetters letters ++ .operator op :: ofPieces [] pieces

/-- The tokens of an expression. -/
def Grammar.tokens (g : Grammar) (text : String) : Except ExpressionError (List Token) :=
  (g.piecesFrom [] 0 text.toList).map (Token.ofPieces [])

end Presence
