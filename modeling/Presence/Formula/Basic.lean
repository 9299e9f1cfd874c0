/-!
# Formulas

A *presence condition* is a propositional formula over configuration symbols.
Its atoms carry the name of a symbol, and a name is any text.

A formula has a truth value under every assignment of truth values to names
(`Formula.eval`) and one canonical text (`Formula.render`).  The text brackets
every conjunction and disjunction and nothing else.

Two shapes matter for clause form.  A *literal* is an atom or a negated atom.
A *clause* is a tree of disjunctions whose leaves are literals.
-/

namespace Presence

/-- A propositional formula over named atoms. -/
inductive Formula where
  /-- A truth value. -/
  | constant (value : Bool)
  /-- The symbol of the given name. -/
  | atom (name : String)
  /-- The negation of a formula. -/
  | negation (operand : Formula)
  /-- Both formulas hold. -/
  | conjunction (left right : Formula)
  /-- At least one of the formulas holds. -/
  | disjunction (left right : Formula)
  deriving DecidableEq, Repr, Inhabited

namespace Formula

/-! ## Meaning -/

/-- The truth value of a formula, given the truth values of names. -/
def eval (value : String → Bool) : Formula → Bool
  | constant b => b
  | atom name => value name
  | negation f => !f.eval value
  | conjunction l r => l.eval value && r.eval value
  | disjunction l r => l.eval value || r.eval value

/-- Some assignment of truth values to names makes the formula true. -/
def Satisfiable (f : Formula) : Prop := ∃ value, f.eval value = true

/-! ## Canonical text -/

/-- The canonical text: constants are `1` and `0`, every binary node has its
own brackets, and a negation has none. -/
def render : Formula → String
  | constant true => "1"
  | constant false => "0"
  | atom name => name
  | negation f => "!" ++ f.render
  | conjunction l r => "(" ++ l.render ++ " && " ++ r.render ++ ")"
  | disjunction l r => "(" ++ l.render ++ " || " ++ r.render ++ ")"

/-! ## Shapes -/

/-- An atom or a negated atom. -/
def isLiteral : Formula → Bool
  | atom _ => true
  | negation (atom _) => true
  | _ => false

/-- Literals joined by disjunctions only. -/
def isClause : Formula → Bool
  | disjunction l r => l.isClause && r.isClause
  | f => f.isLiteral

/-- A truth value. -/
def isConstant : Formula → Bool
  | constant _ => true
  | _ => false

/-- A truth value or an atom, that is, a node without operands. -/
def isLeaf : Formula → Bool
  | constant _ | atom _ => true
  | _ => false

/-- The name at an atom. -/
def name? : Formula → Option String
  | atom name => some name
  | _ => none

/-- The names at the atoms from left to right, a name as often as it occurs. -/
def atoms : Formula → List String
  | constant _ => []
  | atom name => [name]
  | negation f => f.atoms
  | conjunction l r | disjunction l r => l.atoms ++ r.atoms

/-- The formulas directly below a node, the left one first. -/
def operands : Formula → List Formula
  | constant _ | atom _ => []
  | negation f => [f]
  | conjunction l r | disjunction l r => [l, r]

/-- The number of nodes. -/
def nodeCount : Formula → Nat
  | constant _ | atom _ => 1
  | negation f => f.nodeCount + 1
  | conjunction l r | disjunction l r => l.nodeCount + r.nodeCount + 1

end Formula

end Presence
