import Presence.Expression.Grammar

/-!
# Grammars given by tables

A grammar can be given by its list of operators and by the characters of each
class.  Every identifier is then an atom.
-/

namespace Presence

/-- The operators and character classes of a grammar. -/
structure GrammarTable where
  /-- The operators; where several are written at one place, the first counts. -/
  operators : List Operator
  /-- The characters that separate tokens. -/
  whitespace : List Char
  /-- The opening brackets. -/
  opening : List Char
  /-- The closing brackets. -/
  closing : List Char
  /-- The characters of identifiers; without a list, the characters of symbols. -/
  letters : Option (List Char)

/-- The grammar of a table. -/
def GrammarTable.grammar (t : GrammarTable) : Grammar where
  operator? p := t.operators.find? fun op => p.startsWith op.symbol
  isWhitespace p := t.whitespace.contains p.here
  isOpening p := t.opening.contains p.here
  isClosing p := t.closing.contains p.here
  isIdentifierChar p :=
    match t.letters with
    | some letters => letters.contains p.here
    | none => isSymbolChar p.here
  identifier text := .ok (.atom text)

end Presence
