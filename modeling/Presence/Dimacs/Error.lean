import Presence.Cnf

/-!
# Faults of DIMACS texts

Each way in which bytes fail to be a DIMACS text is one constructor.  The faults
that belong to a place of the text carry the number of its line.
-/

namespace Presence

/-- Why bytes are not a DIMACS text. -/
inductive DimacsError where
  /-- A byte that cannot stand where it does, as the character of its number. -/
  | unexpectedInput (line : Nat) (character : Char)
  /-- A variable number that is too large, in two parts: what was read of it
  before the digit that made it so, and that digit. -/
  | numberTooLarge (line index finalDigit : Nat)
  /-- A problem line without its two counts. -/
  | invalidHeader (line : Nat) (text : String)
  /-- A comment that gives a name to the number 0. -/
  | invalidNaming (line : Nat) (name : String)
  /-- The text ends inside a clause. -/
  | unterminatedClause (line : Nat)
  /-- The clauses use another number of variables than declared. -/
  | variableCount (found declared : Nat)
  /-- There is another number of clauses than declared. -/
  | clauseCount (found declared : Nat)
  /-- Input after a fault. -/
  | previousError
  deriving DecidableEq, Repr

/-- The wording of a fault. -/
def DimacsError.message : DimacsError → String
  | unexpectedInput line character =>
      atLine line ("Unexpected character '" ++ String.singleton character ++ "'")
  | numberTooLarge line index finalDigit =>
      atLine line ("Variable number " ++ toString index ++ toString finalDigit ++
        "... exceeds the supported range")
  | invalidHeader line text => atLine line ("Malformed problem line '" ++ text ++ "'")
  | invalidNaming line name =>
      atLine line ("Variable number 0 cannot be named '" ++ name ++ "'")
  | unterminatedClause line => atLine line "Clause is missing its terminating 0"
  | variableCount found declared =>
      "Clauses use " ++ toString found ++ " variables but the problem line declares " ++
        toString declared
  | clauseCount found declared =>
      "Found " ++ toString found ++ " clauses but the problem line declares " ++
        toString declared
  | previousError => "Parser used again after an error"
where
  /-- A wording with the line in front. -/
  atLine (line : Nat) (text : String) : String := "line " ++ toString line ++ ": " ++ text

end Presence
