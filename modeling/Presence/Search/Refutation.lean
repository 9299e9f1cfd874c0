import Presence.Cnf

/-!
# Refutations

Two clauses, one with a literal and one with its negation, have a *resolvent*:
the other literals of both.  It holds wherever the two clauses do.  A
*derivation* names a clause and resolves it with further clauses, one after the
other.  A *refutation* is a row of derivations, each of which may use what those
before it derived, that ends with the empty clause.

Clauses with a refutation cannot all hold.  This needs no trust in whoever found
the refutation: `refutes` makes every step anew.
-/

namespace Presence.Search

/-! ## Resolvents -/

/-- A number that orders literals by their variables. -/
def code (l : Literal) : Nat := 2 * l.number + l.positive.toNat

/-- The literals of two clauses.  If both are in ascending order then so is the
result, without repetitions. -/
def union : Clause → Clause → Clause
  | [], ds => ds
  | cs, [] => cs
  | c :: cs, d :: ds =>
      if code c < code d then c :: union cs (d :: ds)
      else if code d < code c then d :: union (c :: cs) ds
      else if c = d then c :: union cs ds
      else c :: d :: union cs ds

/-- The resolvent of a clause with the literal and a clause with its negation. -/
def resolve (l : Literal) (c d : Clause) : Clause :=
  union (c.filter (· != l)) (d.filter (· != l.negate))

/-! ## Derivations -/

/-- A clause that follows from known clauses, which are named by their places. -/
structure Derivation where
  /-- The first clause. -/
  start : Nat
  /-- The clauses it is resolved with, each with the literal that this removes. -/
  steps : List (Literal × Nat)
  deriving DecidableEq, Repr

/-- The clause that a derivation derives from the known ones. -/
def Derivation.clause? (known : Array Clause) (d : Derivation) : Option Clause := do
  let first ← known[d.start]?
  d.steps.foldlM (fun c (l, place) => (known[place]?).map (resolve l c)) first

/-- The known clauses together with those that the derivations derive. -/
def derive? (known : Array Clause) : List Derivation → Option (Array Clause)
  | [] => some known
  | d :: ds =>
      match d.clause? known with
      | some c => derive? (known.push c) ds
      | none => none

/-- The derivations end with the empty clause. -/
def refutes (cs : List Clause) (ds : List Derivation) : Bool :=
  match derive? (cs.map fun c => c.mergeSort fun l k => code l ≤ code k).toArray ds with
  | some known => known.back? == some []
  | none => false

end Presence.Search
