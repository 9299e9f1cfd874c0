import Presence.Checker.Engine
import Presence.Search.Learning
import Presence.Search.Splitting

/-!
# Search for a satisfying assignment

Whether clauses can all hold is decided in two ways.  Splitting is plain and
always right, and it is what settles small cases.  For all others a search that
learns makes a finding, and the finding is checked: an assignment by evaluating
the clauses under it, a refutation by making its steps anew.  If a finding does
not pass then splitting settles the case after all.

The search is an engine for checks (`Search.engine`).
-/

namespace Presence.Search

/-- The largest number of literals that splitting settles at once. -/
def smallCase : Nat := 60

/-- The number of rounds of a search that learns, `2 ^ 62`. -/
def patience : Nat := 0x4000000000000000

/-- Whether the clauses can all hold, if the finding passes its check. -/
def Finding.verdict? (cs : List Clause) : Finding → Option Bool
  | assignment values =>
      if cs.all (Clause.holds fun number => values.getD number false) then some true else none
  | refutation ds => if refutes cs ds then some false else none
  | nothing => none

/-- Some assignment of truth values to variables makes all clauses hold. -/
def isSatisfiable (cs : List Clause) : Bool :=
  if literalCount cs ≤ smallCase then splits cs
  else ((find patience cs).verdict? cs).getD (splits cs)

/-- The search as an engine, which never fails and is never late. -/
def engine : Engine where
  solve forms := .ok (isSatisfiable (forms.flatMap fun f => f.clauses.toList))
  course _ _ := .inTime

end Presence.Search
