import Presence.Expression.Dialect.Definedness
import Presence.Expression.Dialect.Tristate

/-!
# Dialects

The three textual dialects of presence conditions, under the names by which
they are asked for.
-/

namespace Presence

/-- A textual dialect of presence conditions. -/
inductive Dialect where
  /-- Symbols and operators only. -/
  | plain
  /-- Comparisons with tristate values. -/
  | tristate
  /-- Calls that test whether a symbol is defined. -/
  | definedness
  deriving DecidableEq, Repr

namespace Dialect

/-- The name by which a dialect is asked for. -/
def name : Dialect → String
  | plain => "c"
  | tristate => "kbuild"
  | definedness => "typechef"

/-- The dialects in the order in which they are listed. -/
def all : List Dialect := [plain, tristate, definedness]

/-- The dialect of a name, whose letters may be of either case. -/
def ofName? (name : String) : Option Dialect :=
  all.find? fun dialect => dialect.name.toList == name.toList.map Char.toLower

/-- The grammar of a dialect. -/
def grammar : Dialect → Grammar
  | plain => Plain.grammar
  | tristate => Tristate.grammar
  | definedness => Definedness.grammar

end Dialect

end Presence
