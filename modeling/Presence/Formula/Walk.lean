import Presence.Formula.Basic

/-!
# Walks over formulas

A condition can be nested far deeper than a call stack allows, so its nodes are
visited with an explicit stack of pending formulas.  A step takes the top
formula off the stack and puts its operands there instead, the left one on top.
The nodes thus come out in pre-order.

`walk` lists the nodes of a whole stack and `deepest` tracks the level of each
pending formula.  Both end because a step removes one node from the stack
(`stackSize_operands`).  The queries of this module read off what they need
from the list of nodes.
-/

namespace Presence.Formula

/-- The number of nodes of the formulas on a stack. -/
def stackSize : List Formula → Nat
  | [] => 0
  | f :: stack => f.nodeCount + stackSize stack

theorem stackSize_append (fs gs : List Formula) :
    stackSize (fs ++ gs) = stackSize fs + stackSize gs := by
  induction fs with
  | nil => simp [stackSize]
  | cons f fs ih => simp [stackSize, ih, Nat.add_assoc]

/-- The operands of a node hold all its nodes but one. -/
theorem stackSize_operands (f : Formula) : stackSize f.operands + 1 = f.nodeCount := by
  cases f <;> simp only [operands, stackSize, nodeCount] <;> omega

/-- The nodes of the formulas on a stack, each before its operands. -/
def walk : List Formula → List Formula
  | [] => []
  | f :: stack => f :: walk (f.operands ++ stack)
termination_by stack => stackSize stack
decreasing_by
  have := stackSize_operands f
  simp only [stackSize_append, stackSize]
  omega

/-- All nodes of a formula in pre-order, the left operand first. -/
def subformulas (f : Formula) : List Formula := walk [f]

/-- A truth value occurs in the formula. -/
def containsConstants (f : Formula) : Bool := f.subformulas.any isConstant

/-- The number of leaves. -/
def leafCount (f : Formula) : Nat := f.subformulas.countP isLeaf

/-- The names of the formula, each once, in the order of first occurrence. -/
def names (f : Formula) : List String := (f.subformulas.filterMap name?).eraseDups

/-! ## Depth -/

/-- The number of nodes of the formulas on a stack of formulas with levels. -/
def leveledSize : List (Formula × Nat) → Nat
  | [] => 0
  | (f, _) :: stack => f.nodeCount + leveledSize stack

theorem leveledSize_append (fs gs : List (Formula × Nat)) :
    leveledSize (fs ++ gs) = leveledSize fs + leveledSize gs := by
  induction fs with
  | nil => simp [leveledSize]
  | cons f fs ih => simp [leveledSize, ih, Nat.add_assoc]

theorem leveledSize_map (level : Nat) (fs : List Formula) :
    leveledSize (fs.map (·, level)) = stackSize fs := by
  induction fs with
  | nil => rfl
  | cons f fs ih => simp [leveledSize, stackSize, ih]

/-- The largest level at which a node occurs, where each formula on the stack
sits at the level beside it; `found` is the largest level seen so far. -/
def deepest (found : Nat) : List (Formula × Nat) → Nat
  | [] => found
  | (f, level) :: stack =>
      deepest (max found level) (f.operands.map (·, level + 1) ++ stack)
termination_by stack => leveledSize stack
decreasing_by
  have := stackSize_operands f
  simp only [leveledSize_append, leveledSize_map, leveledSize]
  omega

/-- The number of nodes on the longest path from the root to a leaf. -/
def depth (f : Formula) : Nat := deepest 0 [(f, 1)]

end Presence.Formula
