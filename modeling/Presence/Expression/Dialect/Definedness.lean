import Presence.Expression.Dialect.Plain

/-!
# Tests of definedness

Conditions taken from preprocessed sources test a symbol with `defined(S)` or
`definedEx(S)`, and both mean the atom `S`.  The whole call is one identifier,
so its brackets are no brackets of the expression.  Everything else is as in
plain expressions.
-/

namespace Presence.Definedness

/-- The names of the calls that test a symbol. -/
def calls : List String := ["defined", "definedEx"]

/-- The place is the opening bracket of a call. -/
def opensCall (p : Place) : Bool :=
  p.here == '(' && calls.any fun call => p.before.takeWhile isSymbolChar == call.toList.reverse

/-- The place is the closing bracket of a call. -/
def closesCall (p : Place) : Bool :=
  p.here == ')' &&
    match p.before.dropWhile isSymbolChar with
    | [] => false
    | c :: before => opensCall ⟨before, c, []⟩

/-- The argument of a call of the given name. -/
def argument? (call : String) (text : List Char) : Option (List Char) :=
  let opening := call.toList ++ ['(']
  let inner := text.drop opening.length
  if opening.isPrefixOf text && inner.getLast? == some ')' then some inner.dropLast else none

/-- The symbol that a call tests. -/
def tested? (text : List Char) : Option (List Char) :=
  calls.findSome? fun call => (argument? call text).filter isSymbol

/-- The meaning of an identifier. -/
def identifier (text : String) : Except ExpressionError Formula :=
  match tested? text.toList with
  | some symbol => .ok (.atom (String.ofList symbol))
  | none => Plain.identifier text

/-- The grammar of tests of definedness. -/
def grammar : Grammar where
  operator? := Place.operator?
  isWhitespace p := Plain.isSpace p.here
  isOpening p := p.here == '(' && !opensCall p
  isClosing p := p.here == ')' && !closesCall p
  isIdentifierChar p := isSymbolChar p.here || opensCall p || closesCall p
  identifier := identifier

end Presence.Definedness
