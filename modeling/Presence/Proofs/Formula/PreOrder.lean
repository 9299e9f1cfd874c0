import Presence.Proofs.Formula.Walk
import Mathlib.Data.List.Nodup

/-!
# Pre-order

A *path* leads from the root of a formula to one of its nodes.  It says at each node with which
operand to go on, counted from 0 (`follow?`).  The same part can stand at several places of a
formula, so nodes are told apart by their paths.

`paths` lists the paths into a formula.  It holds those that lead to a node and no others
(`mem_paths`), in the order of a dictionary (`pairwise_paths`).  In this order a path comes before
all that go on from it, and where two paths part, the one to the left comes first, which is what
pre-order means.  The nodes of a walk are those at the ends of the paths (`map_some_nodes`), so a
walk comes to each node once and in pre-order.

The other queries are about leaves.  A walk comes to them from left to right
(`filter_isLeaf_nodes`), and it is in this order that names are found (`pairwise_idxOf_names`).
All of this together is `walks_outcome`.
-/

namespace Presence.Formula

/-! ## Paths -/

/-- The node at the end of a path, unless the path leaves the formula. -/
def follow? (f : Formula) : List Nat → Option Formula
  | [] => some f
  | i :: path => f.operands[i]?.bind fun g => g.follow? path

/-- The paths into a formula, those that end at a node before those that go on below it. -/
def paths : Formula → List (List Nat)
  | constant _ | atom _ => [[]]
  | negation f => [] :: f.paths.map (0 :: ·)
  | conjunction l r | disjunction l r => [] :: (l.paths.map (0 :: ·) ++ r.paths.map (1 :: ·))

variable {f : Formula} {path : List Nat}

/-- The nodes are those at the ends of the paths. -/
theorem map_some_nodes (f : Formula) : f.nodes.map some = f.paths.map f.follow? := by
  induction f with
  | constant b => rfl
  | atom name => rfl
  | negation f ih =>
      -- What follows the first operand of a path is followed from that operand, by definition.
      rw [nodes, paths, List.map_cons, List.map_cons, ih, List.map_map]
      rfl
  | conjunction l r ihl ihr | disjunction l r ihl ihr =>
      rw [nodes, paths, List.map_cons, List.map_cons, List.map_append, List.map_append, ihl, ihr,
        List.map_map, List.map_map]
      rfl

/-- The paths that go on are those into the operands. -/
theorem cons_mem_paths {i : Nat} :
    i :: path ∈ f.paths ↔ ∃ g, f.operands[i]? = some g ∧ path ∈ g.paths := by
  cases f with
  | constant | atom => simp [paths, operands]
  | negation f => rcases i with _ | i <;> simp [paths, operands]
  | conjunction l r | disjunction l r => rcases i with _ | _ | i <;> simp [paths, operands]

/-- The paths that are listed are those that lead to a node. -/
theorem mem_paths : path ∈ f.paths ↔ (f.follow? path).isSome = true := by
  induction path generalizing f with
  | nil => cases f <;> simp [paths, follow?]
  | cons i path ih =>
      rw [cons_mem_paths, follow?]
      cases f.operands[i]? with
      | none => simp
      | some g => simp [ih]

/-- Going on from the same operand keeps the order. -/
theorem pairwise_map_cons {ps : List (List Nat)} (i : Nat) (h : ps.Pairwise (· < ·)) :
    (ps.map (i :: ·)).Pairwise (· < ·) := by
  rw [List.pairwise_map]
  exact h.imp fun hlt => List.cons_lt_cons_iff.2 (Or.inr ⟨rfl, hlt⟩)

/-- The paths are in the order of a dictionary, which is pre-order. -/
theorem pairwise_paths (f : Formula) : f.paths.Pairwise (· < ·) := by
  induction f with
  | constant b => exact List.pairwise_singleton _ _
  | atom name => exact List.pairwise_singleton _ _
  | negation f ih =>
      rw [paths, List.pairwise_cons]
      exact ⟨List.forall_mem_map.2 fun p _ => List.nil_lt_cons 0 p, pairwise_map_cons 0 ih⟩
  | conjunction l r ihl ihr | disjunction l r ihl ihr =>
      rw [paths, List.pairwise_cons, List.forall_mem_append, List.pairwise_append]
      refine ⟨⟨List.forall_mem_map.2 fun p _ => List.nil_lt_cons 0 p,
        List.forall_mem_map.2 fun p _ => List.nil_lt_cons 1 p⟩,
        pairwise_map_cons 0 ihl, pairwise_map_cons 1 ihr, ?_⟩
      -- Whatever is below the left operand comes before whatever is below the right one.
      intro p hp q hq
      obtain ⟨p, -, rfl⟩ := List.mem_map.1 hp
      obtain ⟨q, -, rfl⟩ := List.mem_map.1 hq
      exact List.cons_lt_cons_iff.2 (Or.inl Nat.zero_lt_one)

/-- The paths of a formula with a repeated part. -/
example : (disjunction (negation (atom "A")) (conjunction (atom "B") (atom "A"))).paths =
    [[], [0], [0, 0], [1], [1, 0], [1, 1]] := by
  decide

/-! ## Leaves -/

/-- The leaves from left to right, a leaf as often as it occurs. -/
def leaves : Formula → List Formula
  | constant b => [constant b]
  | atom name => [atom name]
  | negation f => f.leaves
  | conjunction l r | disjunction l r => l.leaves ++ r.leaves

/-- Pre-order goes through the leaves from left to right. -/
theorem filter_isLeaf_nodes (f : Formula) : f.nodes.filter isLeaf = f.leaves := by
  induction f with
  | constant b => rfl
  | atom name => rfl
  | negation f ih => rw [nodes, List.filter_cons_of_neg Bool.false_ne_true, ih, leaves]
  | conjunction l r ihl ihr | disjunction l r ihl ihr =>
      rw [nodes, List.filter_cons_of_neg Bool.false_ne_true, List.filter_append, ihl, ihr, leaves]

theorem leafCount_eq_length (f : Formula) : f.leafCount = f.leaves.length := by
  rw [leafCount_eq, List.countP_eq_length_filter, filter_isLeaf_nodes]

theorem containsConstants_iff : f.containsConstants = true ↔ ∃ b, constant b ∈ f.leaves := by
  rw [containsConstants_eq, List.any_eq_true, ← filter_isLeaf_nodes]
  constructor
  · rintro ⟨g, hg, hconstant⟩
    cases g with
    | constant b => exact ⟨b, List.mem_filter.2 ⟨hg, rfl⟩⟩
    | atom | negation | conjunction | disjunction => cases hconstant
  · rintro ⟨b, hb⟩
    exact ⟨constant b, (List.mem_filter.1 hb).1, rfl⟩

/-! ## Names -/

/-- The leaves with a name are the atoms. -/
theorem filter_name?_leaves (f : Formula) :
    f.leaves.filter (·.name?.isSome) = f.atoms.map atom := by
  induction f with
  | constant b => rfl
  | atom name => rfl
  | negation f ih => exact ih
  | conjunction l r ihl ihr | disjunction l r ihl ihr =>
      rw [leaves, List.filter_append, ihl, ihr, atoms, List.map_append]

theorem mem_names_iff_mem_leaves {name : String} : name ∈ f.names ↔ atom name ∈ f.leaves := by
  have hmap : atom name ∈ f.atoms.map atom ↔ name ∈ f.atoms :=
    List.mem_map_of_injective fun _ _ h => atom.inj h
  rw [mem_names, ← hmap, ← filter_name?_leaves, List.mem_filter]
  exact and_iff_left rfl

theorem idxOf_map_atom (name : String) (names : List String) :
    (names.map atom).idxOf (atom name) = names.idxOf name := by
  induction names with
  | nil => rfl
  | cons n names ih =>
      by_cases hn : n = name
      · rw [hn, List.map_cons, List.idxOf_cons_self, List.idxOf_cons_self]
      · have hatom : atom n ≠ atom name := fun h => hn (atom.inj h)
        rw [List.map_cons, List.idxOf_cons_ne _ hatom, List.idxOf_cons_ne _ hn, ih]

/-- The names are in the order in which they first come up among the leaves. -/
theorem pairwise_idxOf_names (f : Formula) :
    f.names.Pairwise fun m n => f.leaves.idxOf (atom m) < f.leaves.idxOf (atom n) := by
  rw [names_eq_eraseDups]
  refine (pairwise_idxOf_eraseDups f.atoms).imp fun {m n} hlt => ?_
  refine idxOf_lt_of_idxOf_filter_lt (·.name?.isSome) rfl rfl ?_
  rwa [filter_name?_leaves, idxOf_map_atom, idxOf_map_atom]

/-! ## The queries -/

/-- A walk lists the nodes as recursion does.  They are the nodes at the ends of all paths into the
formula, each path once and in the order of a dictionary, so a node comes before those below it,
and those below its left operand before those below its right one.  The depth is the height of the
tree, which is 1 at a leaf and one more than that of the highest operand elsewhere.  The number of
leaves, the presence of a truth value and the names are told by the leaves from left to right, and
the names are each there once, in the order in which they first come up. -/
theorem walks_outcome (f : Formula) :
    (f.subformulas = f.nodes ∧ f.subformulas.map some = f.paths.map f.follow?) ∧
    (f.paths.Nodup ∧ f.paths.Pairwise (· < ·) ∧
      ∀ path, path ∈ f.paths ↔ (f.follow? path).isSome = true) ∧
    f.depth = f.height ∧
    f.leafCount = f.leaves.length ∧
    (f.containsConstants = true ↔ ∃ b, constant b ∈ f.leaves) ∧
    f.names.Nodup ∧
    (∀ name, name ∈ f.names ↔ atom name ∈ f.leaves) ∧
    f.names.Pairwise fun m n => f.leaves.idxOf (atom m) < f.leaves.idxOf (atom n) := by
  have hwalk : f.subformulas.map some = f.paths.map f.follow? := by
    rw [subformulas_eq_nodes, map_some_nodes]
  have hpaths : f.paths.Nodup := f.pairwise_paths.nodup
  exact ⟨⟨f.subformulas_eq_nodes, hwalk⟩, ⟨hpaths, f.pairwise_paths, fun path => mem_paths⟩,
    f.depth_eq_height, f.leafCount_eq_length, containsConstants_iff, f.nodup_names,
    fun name => mem_names_iff_mem_leaves, f.pairwise_idxOf_names⟩

end Presence.Formula
