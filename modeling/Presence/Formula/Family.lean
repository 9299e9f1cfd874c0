import Presence.Formula.Basic

/-!
# Families of formulas

Three families with a known shape.

* `disjunctionChain n` has `2 ^ n` clauses once its disjunctions are
  distributed.
* `deepConjunction n` is nested `n` levels deep over four names.
* `pigeonhole p h` says that `p` pigeons fit into `h` holes with at most one
  pigeon in each, so it is satisfiable exactly for `p ≤ h`.
-/

namespace Presence.Formula

/-! ## Chains -/

/-- The disjunction `(Ai && Bi) || (A(i+1) && B(i+1)) || …` of `more + 1` terms,
leaning to the right. -/
def chainFrom (i : Nat) : (more : Nat) → Formula
  | 0 => pair i
  | more + 1 => disjunction (pair i) (chainFrom (i + 1) more)
where
  /-- The term `Ai && Bi`. -/
  pair (i : Nat) : Formula :=
    conjunction (atom ("A" ++ toString i)) (atom ("B" ++ toString i))

/-- The disjunction of the `n` terms `A0 && B0` up to `A(n-1) && B(n-1)`,
leaning to the right; `n` is at least one. -/
def disjunctionChain (n : Nat) : Formula := chainFrom 0 (n - 1)

/-- The conjunction `((X0 && X1) && X2) && …` with `n` conjunctions, leaning to
the left.  The names repeat after four. -/
def deepConjunction : (n : Nat) → Formula
  | 0 => atom "X0"
  | n + 1 => conjunction (deepConjunction n) (atom ("X" ++ toString ((n + 1) % 4)))

/-! ## Pigeons -/

/-- The pigeon sits in the hole. -/
def sits (pigeon hole : Nat) : Formula :=
  atom ("P" ++ toString pigeon ++ "H" ++ toString hole)

/-- The pigeon sits in one of the holes, of which there is at least one. -/
def placed (holes pigeon : Nat) : Formula :=
  (List.range' 1 (holes - 1)).foldl (fun f hole => disjunction f (sits pigeon hole))
    (sits pigeon 0)

/-- Two pigeons do not share a hole. -/
def apart (hole first second : Nat) : Formula :=
  disjunction (negation (sits first hole)) (negation (sits second hole))

/-- The conditions of the pigeonhole formula: every pigeon is placed, then for
each hole every two pigeons stay apart. -/
def pigeonConditions (pigeons holes : Nat) : List Formula :=
  (List.range pigeons).map (placed holes) ++
    (List.range holes).flatMap fun hole =>
      (List.range pigeons).flatMap fun first =>
        (List.range' (first + 1) (pigeons - (first + 1))).map fun second =>
          apart hole first second

/-- Joins neighbours; a last formula without a partner stays as it is. -/
def joinPairs : List Formula → List Formula
  | l :: r :: rest => conjunction l r :: joinPairs rest
  | rest => rest

theorem length_joinPairs_le (fs : List Formula) : (joinPairs fs).length ≤ fs.length := by
  fun_induction joinPairs fs with
  | case1 l r rest ih => simp; omega
  | case2 rest => exact Nat.le_refl _

/-- One conjunction of all formulas, nested as little as neighbours can be
joined in rounds.  No formulas at all give the truth value `true`. -/
def conjoin : List Formula → Formula
  | [] => constant true
  | [f] => f
  | l :: r :: rest => conjoin (joinPairs (l :: r :: rest))
termination_by fs => fs.length
decreasing_by
  have := length_joinPairs_le rest
  simp [joinPairs]
  omega

/-- The pigeons fit into the holes, of which there is at least one. -/
def pigeonhole (pigeons holes : Nat) : Formula := conjoin (pigeonConditions pigeons holes)

end Presence.Formula
