import Presence.Cnf
import Presence.Dimacs.Reader
import Presence.NameTable

/-!
# Writing DIMACS texts

A text has one naming comment per name, the problem line, and one line per
clause.  A name is written without the text that reading puts before it.  Names
without that text are not written.
-/

namespace Presence

/-- The problem line of two counts. -/
def Header.render (h : Header) : String :=
  "p cnf " ++ toString h.variableCount ++ " " ++ toString h.clauseCount ++ "\n"

/-- The line of a clause. -/
def Clause.render (c : Clause) : String :=
  String.join (c.map fun l => l.render ++ " ") ++ "0\n"

namespace Cnf

/-- The counts of a clause form. -/
def header (f : Cnf) : Header := ⟨f.variableCount, f.clauses.size⟩

/-- The lines of the clauses. -/
def renderClauses (f : Cnf) : String := String.join (f.clauses.toList.map Clause.render)

/-- The problem line and the lines of the clauses. -/
def render (f : Cnf) : String := f.header.render ++ f.renderClauses

end Cnf

/-- What is left of a name without the text in front of it. -/
def dropStem? (stem name : String) : Option String :=
  if stem.toList.isPrefixOf name.toList then
    some (String.ofList (name.toList.drop stem.length))
  else none

/-- The naming comment of a variable, if its name begins with the stem. -/
def namingLine? (stem : String) (entry : Nat × String) : Option String :=
  (dropStem? stem entry.2).map fun name =>
    "c " ++ toString entry.1 ++ " " ++ name ++ "\n"

/-- The naming comments of a name table in the order of the numbers. -/
def NameTable.render (t : NameTable) (stem : String) : String :=
  String.join (t.toList.filterMap (namingLine? stem))

end Presence
