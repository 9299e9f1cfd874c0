import Presence.Cnf

/-!
# Conflicts of unit clauses

A clause of one literal forces that literal.  Two such clauses of opposite
literals contradict each other, and so does the empty clause with everything.
A contradiction of this kind is found without a search.
-/

namespace Presence

/-- A contradiction that can be seen from unit clauses. -/
inductive Conflict where
  /-- There is an empty clause. -/
  | emptyClause
  /-- The literal is forced although its negation is. -/
  | opposed (l : Literal)
  deriving DecidableEq, Repr

namespace Conflict

/-- How a conflict is named in messages. -/
def render : Conflict → String
  | emptyClause => "empty clause"
  | opposed l => l.render

/-- The first conflict in a list of clauses, given the literals that are forced
already. -/
def find? (forced : List Literal) : List Clause → Option Conflict
  | [] => none
  | [] :: _ => some emptyClause
  | [l] :: cs => if forced.contains l.negate then some (opposed l) else find? (l :: forced) cs
  | _ :: cs => find? forced cs

/-- The literals that unit clauses force. -/
def units (cs : List Clause) : List Literal :=
  cs.filterMap fun c =>
    match c with
    | [l] => some l
    | _ => none

end Conflict

end Presence
