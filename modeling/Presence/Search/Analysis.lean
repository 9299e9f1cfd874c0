import Presence.Search.Trail

/-!
# Analysis of failures

When all literals of a clause fail, the choices made so far cannot stand.  The
analysis resolves the clause with the reasons of its literals, the latest first,
until one literal of the present level is left.  The resulting clause says what
to hold once some of the choices are taken back.

A literal of the result can be left out if the other literals of its reason are
in the result.  Literals that fail on level 0 are removed by the clauses of
their own that level 0 has.
-/

namespace Presence.Search

/-- The state of an analysis. -/
structure Analysis where
  /-- The variables that have been met are 1. -/
  met : ByteArray
  /-- The variables that have been met. -/
  touched : List Nat := []
  /-- The literals of earlier levels. -/
  kept : List Nat := []
  /-- The literals of level 0. -/
  roots : List Nat := []
  /-- The number of literals of the present level that are still there. -/
  pending : Nat := 0
  /-- The steps, the last step first. -/
  steps : List (Nat × Nat) := []

namespace Analysis

/-- The literal's variable has been met. -/
def hasMet (a : Analysis) (p : Nat) : Bool := byteAt a.met (variableOf p) == 1

/-- Meets a literal that fails. -/
def meet (t : Trail) (a : Analysis) (p : Nat) : Analysis :=
  if a.hasMet p then a
  else
    let level := t.levelOf p
    let a := { a with met := setByte a.met (variableOf p) 1, touched := variableOf p :: a.touched }
    if level = 0 then { a with roots := p :: a.roots }
    else if level = t.level then { a with pending := a.pending + 1 }
    else { a with kept := p :: a.kept }

/-- Meets the literals of a clause but for one that holds. -/
def meetClause (t : Trail) (a : Analysis) (place holding : Nat) : Analysis :=
  (t.clause place).foldl (fun a p => if p = holding then a else meet t a p) a

/-- Resolves with reasons along the first `length` literals of the trail, from
the last one down to the one that is left of the present level. -/
def resolveBack (t : Trail) : (length : Nat) → Analysis → Nat × Analysis
  | 0, a => (0, a)
  | length + 1, a =>
      let p := t.literals.getD length 0
      if !a.hasMet p then resolveBack t length a
      else if a.pending ≤ 1 then (p, a)
      else
        let reason := t.reasonOf p - 1
        let a := { a with pending := a.pending - 1, steps := (opposite p, reason) :: a.steps }
        resolveBack t length (meetClause t a reason p)

/-- The literal can be left out: the other literals of its reason have been met
or fail on level 0. -/
def isSpare (t : Trail) (a : Analysis) (p : Nat) : Bool :=
  t.reasonOf p != 0 &&
    (t.clause (t.reasonOf p - 1)).all fun q =>
      q == opposite p || t.levelOf q == 0 || a.hasMet q

/-- Leaves out what can be left out, the latest on the trail first. -/
def thin (t : Trail) (a : Analysis) : Analysis :=
  let (spare, kept) := a.kept.partition (isSpare t a)
  let position (p : Nat) : Nat := t.positions.getD (variableOf p) 0
  (spare.mergeSort fun p q => position q ≤ position p).foldl
    (fun a p =>
      let reason := t.reasonOf p - 1
      let a := { a with steps := (p, reason) :: a.steps }
      (t.clause reason).foldl
        (fun a q => if q != opposite p && t.levelOf q == 0 then meet t a q else a) a)
    { a with kept }

end Analysis

/-- A clause that follows from a failure. -/
structure Lesson where
  /-- Its derivation. -/
  derivation : CodedDerivation
  /-- Its literals.  The first one has to hold at the level below; the second one,
  if any, fails there and not further below. -/
  literals : Array Nat
  /-- The level to go back to. -/
  level : Nat
  /-- The number of levels of its literals. -/
  breadth : Nat
  /-- The variables that were met, and the cleared marks of the analysis. -/
  touched : List Nat
  /-- All zeros again. -/
  met : ByteArray

/-- The lesson of a clause all of whose literals fail on a level above 0. -/
def Trail.analyze (t : Trail) (met : ByteArray) (place : Nat) : Lesson :=
  let a := Analysis.meetClause t { met } place (2 * t.levels.size)
  let (uip, a) := Analysis.resolveBack t t.literals.size a
  let a := Analysis.thin t a
  let kept := a.kept.mergeSort fun p q => t.levelOf q ≤ t.levelOf p
  { derivation := ⟨place, a.steps.reverse ++ t.rootSteps a.roots⟩
    literals := (opposite uip :: kept).toArray
    level := (kept.head?.map t.levelOf).getD 0
    breadth := 1 + (kept.map t.levelOf).eraseReps.length
    touched := a.touched
    met := a.touched.foldl (fun bytes v => setByte bytes v 0) a.met }

end Presence.Search
