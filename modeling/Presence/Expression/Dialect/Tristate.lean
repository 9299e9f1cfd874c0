import Presence.Expression.Grammar

/-!
# Tristate comparisons

Build rules compare a symbol with the values of a tristate option, `"y"` for
built in and `"m"` for built as a module.

* `S == "y"` and `S == "yes"` are the atom `PS`, with the configured text `P`
  put before the symbol.
* `S == "m"` is the atom `PS_MODULE`.
* `S != …` is the negation of `S == …`.
* `[TRUE]` is the truth value.
* A bare symbol is an atom as it stands, but `1` and `0` are truth values.

A whole comparison is one identifier.  Its blanks belong to it, which is seen
from the `=` on one of their sides.
-/

namespace Presence.Tristate

/-- The text that is put before compared symbols unless another is asked for. -/
def defaultStem : String := "CONFIG_"

/-- A space or a tab. -/
def isBlank (c : Char) : Bool := c == ' ' || c == '\t'

/-- The nearest character before the place that is no blank ends a comparison
operator, or the nearest one after it begins one. -/
def insideComparison (p : Place) : Bool :=
  p.before.find? (fun c => !isBlank c) == some '=' ||
    match p.after.dropWhile isBlank with
    | '=' :: _ => true
    | '!' :: '=' :: _ => true
    | _ => false

/-- The exclamation mark of `!=` is no negation. -/
def operator? (p : Place) : Option Operator :=
  if p.here = '!' ∧ p.after.head? = some '=' then none else p.operator?

/-- What comes before and after the first occurrence of a mark. -/
def cutAt? (mark : List Char) : List Char → Option (List Char × List Char)
  | [] => none
  | c :: rest =>
      if mark.isPrefixOf (c :: rest) then some ([], (c :: rest).drop mark.length)
      else (cutAt? mark rest).map fun (left, right) => (c :: left, right)

/-- The atom that says that a symbol has a value. -/
def comparison? (stem : String) (symbol value : List Char) : Option Formula :=
  if !isSymbol symbol then none
  else if value = "\"y\"".toList ∨ value = "\"yes\"".toList then
    some (.atom (stem ++ String.ofList symbol))
  else if value = "\"m\"".toList then
    some (.atom (stem ++ String.ofList symbol ++ "_MODULE"))
  else none

/-- The meaning of an identifier without blanks. -/
def compact? (stem : String) (text : List Char) : Option Formula :=
  if text.contains '[' || text.contains ']' then
    if text = "[TRUE]".toList then some (.constant true) else none
  else if text = ['1'] then some (.constant true)
  else if text = ['0'] then some (.constant false)
  else match cutAt? ['=', '='] text with
  | some (symbol, value) => comparison? stem symbol value
  | none =>
      match cutAt? ['!', '='] text with
      | some (symbol, value) => (comparison? stem symbol value).map .negation
      | none => if isSymbol text then some (.atom (String.ofList text)) else none

/-- The meaning of an identifier, whose blanks do not matter. -/
def identifier (stem : String) (text : String) : Except ExpressionError Formula :=
  match compact? stem (text.toList.filter fun c => !isBlank c) with
  | some f => .ok f
  | none => .error (.invalidIdentifier text)

/-- A character that can be part of a comparison wherever it stands. -/
def isComparisonChar (c : Char) : Bool :=
  c == '!' || c == '=' || c == '"' || c == '[' || c == ']'

/-- The grammar of tristate comparisons. -/
def grammar (stem : String := defaultStem) : Grammar where
  operator? := operator?
  isWhitespace p := isBlank p.here && !insideComparison p
  isOpening p := p.here == '('
  isClosing p := p.here == ')'
  isIdentifierChar p :=
    isComparisonChar p.here || (isBlank p.here && insideComparison p) || isSymbolChar p.here
  identifier := identifier stem

end Presence.Tristate
