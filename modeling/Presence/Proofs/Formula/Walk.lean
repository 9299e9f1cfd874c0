import Presence.Formula.Walk
import Mathlib.Data.List.Basic

/-!
# Walks and recursion

A walk with a stack visits the nodes that plain recursion lists, and in the same
order.  So what a walk collects can be read off by recursion: the names that a
walk finds are those at the atoms, and the deepest level that it meets is the
height of the tree (`depth_eq_height`).
-/

namespace Presence.Formula

/-- The nodes of a formula by recursion, each before its operands. -/
def nodes : Formula → List Formula
  | constant b => [constant b]
  | atom name => [atom name]
  | negation f => negation f :: f.nodes
  | conjunction l r => conjunction l r :: (l.nodes ++ r.nodes)
  | disjunction l r => disjunction l r :: (l.nodes ++ r.nodes)

theorem nodes_eq_cons (f : Formula) : f.nodes = f :: f.operands.flatMap nodes := by
  cases f <;> simp [nodes, operands]

/-- A walk lists the nodes of the formulas on the stack one after the other. -/
theorem walk_eq_flatMap_nodes (stack : List Formula) : walk stack = stack.flatMap nodes := by
  fun_induction walk stack with
  | case1 => rfl
  | case2 f stack ih =>
      rw [ih, List.flatMap_append, List.flatMap_cons, nodes_eq_cons f, List.cons_append]

theorem subformulas_eq_nodes (f : Formula) : f.subformulas = f.nodes := by
  rw [subformulas, walk_eq_flatMap_nodes, List.flatMap_singleton]

theorem filterMap_name?_nodes (f : Formula) : f.nodes.filterMap name? = f.atoms := by
  induction f with
  | constant b => rfl
  | atom name => rfl
  | negation f ih => rw [nodes, List.filterMap_cons_none rfl, ih, atoms]
  | conjunction l r ihl ihr =>
      rw [nodes, List.filterMap_cons_none rfl, List.filterMap_append, ihl, ihr, atoms]
  | disjunction l r ihl ihr =>
      rw [nodes, List.filterMap_cons_none rfl, List.filterMap_append, ihl, ihr, atoms]

theorem names_eq_eraseDups (f : Formula) : f.names = f.atoms.eraseDups := by
  rw [names, subformulas_eq_nodes, filterMap_name?_nodes]

/-- A walk finds the names at the atoms and no others. -/
theorem mem_names {f : Formula} {name : String} : name ∈ f.names ↔ name ∈ f.atoms := by
  rw [names_eq_eraseDups, List.mem_eraseDups]

section

variable {α : Type} [BEq α] [LawfulBEq α]

/-- What is kept of a row without its repetitions is there once. -/
theorem nodup_eraseDups : ∀ l : List α, l.eraseDups.Nodup
  | [] => by simp
  | a :: l => by
      rw [List.eraseDups_cons, List.nodup_cons, List.mem_eraseDups, List.mem_filter]
      exact ⟨by simp, nodup_eraseDups _⟩
termination_by l => l.length
decreasing_by exact Nat.lt_succ_of_le (List.length_filter_le ..)

/-- What passes a test comes first in the same order as in the whole row. -/
theorem idxOf_lt_of_idxOf_filter_lt (test : α → Bool) {a b : α} (ha : test a = true)
    (hb : test b = true) {l : List α} (h : (l.filter test).idxOf a < (l.filter test).idxOf b) :
    l.idxOf a < l.idxOf b := by
  induction l with
  | nil => exact h
  | cons c l ih =>
      by_cases hc : test c = true
      · rw [List.filter_cons_of_pos hc] at h
        by_cases hbc : c = b
        · rw [hbc, List.idxOf_cons_self] at h
          exact absurd h (Nat.not_lt_zero _)
        · rw [List.idxOf_cons_ne _ hbc] at h ⊢
          by_cases hac : c = a
          · rw [hac, List.idxOf_cons_self]
            exact Nat.succ_pos _
          · rw [List.idxOf_cons_ne _ hac] at h ⊢
            exact Nat.succ_lt_succ (ih (Nat.lt_of_succ_lt_succ h))
      · rw [List.filter_cons_of_neg hc] at h
        have hac : c ≠ a := fun hac => hc (hac ▸ ha)
        have hbc : c ≠ b := fun hbc => hc (hbc ▸ hb)
        rw [List.idxOf_cons_ne _ hac, List.idxOf_cons_ne _ hbc]
        exact Nat.succ_lt_succ (ih h)

/-- What is kept of a row without its repetitions is in the order of first occurrence. -/
theorem pairwise_idxOf_eraseDups :
    ∀ l : List α, l.eraseDups.Pairwise fun a b => l.idxOf a < l.idxOf b
  | [] => by simp
  | c :: l => by
      rw [List.eraseDups_cons, List.pairwise_cons]
      have htest : ∀ {b}, b ∈ (l.filter fun b => !b == c).eraseDups → (!b == c) = true :=
        fun hb => (List.mem_filter.1 (List.mem_eraseDups.1 hb)).2
      have hne : ∀ {b}, (!b == c) = true → c ≠ b := by
        rintro b hb rfl
        rw [beq_self_eq_true] at hb
        cases hb
      constructor
      · intro b hb
        rw [List.idxOf_cons_self, List.idxOf_cons_ne _ (hne (htest hb))]
        exact Nat.succ_pos _
      · refine (pairwise_idxOf_eraseDups _).imp_of_mem fun ha hb hlt => ?_
        rw [List.idxOf_cons_ne _ (hne (htest ha)), List.idxOf_cons_ne _ (hne (htest hb))]
        refine Nat.succ_lt_succ ?_
        exact idxOf_lt_of_idxOf_filter_lt (fun b => !b == c) (htest ha) (htest hb) hlt
termination_by l => l.length
decreasing_by exact Nat.lt_succ_of_le (List.length_filter_le ..)

end

theorem nodup_names (f : Formula) : f.names.Nodup := by
  rw [names_eq_eraseDups]
  exact nodup_eraseDups _

/-- There is a leaf for every atom. -/
theorem length_atoms_le_leafCount (f : Formula) : f.atoms.length ≤ f.leafCount := by
  rw [← filterMap_name?_nodes, List.length_filterMap_eq_countP, leafCount, subformulas_eq_nodes]
  refine List.countP_mono_left fun g _ hg => ?_
  cases g with
  | atom name => rfl
  | constant | negation | conjunction | disjunction => cases hg

/-! ## Leaves -/

theorem leafCount_eq (f : Formula) : f.leafCount = f.nodes.countP isLeaf := by
  rw [leafCount, subformulas_eq_nodes]

@[simp]
theorem leafCount_constant (b : Bool) : (constant b).leafCount = 1 := leafCount_eq _

@[simp]
theorem leafCount_atom (name : String) : (atom name).leafCount = 1 := leafCount_eq _

@[simp]
theorem leafCount_negation (f : Formula) : (negation f).leafCount = f.leafCount :=
  (leafCount_eq _).trans (leafCount_eq f).symm

@[simp]
theorem leafCount_conjunction (l r : Formula) :
    (conjunction l r).leafCount = l.leafCount + r.leafCount := by
  rw [leafCount_eq l, leafCount_eq r, ← List.countP_append]
  exact leafCount_eq _

@[simp]
theorem leafCount_disjunction (l r : Formula) :
    (disjunction l r).leafCount = l.leafCount + r.leafCount := by
  rw [leafCount_eq l, leafCount_eq r, ← List.countP_append]
  exact leafCount_eq _

theorem leafCount_pos (f : Formula) : 0 < f.leafCount := by
  induction f with
  | constant | atom => simp
  | negation f ih => rwa [leafCount_negation]
  | conjunction l r ihl _ =>
      rw [leafCount_conjunction]
      exact Nat.add_pos_left ihl _
  | disjunction l r ihl _ =>
      rw [leafCount_disjunction]
      exact Nat.add_pos_left ihl _

/-! ## Truth values -/

theorem containsConstants_eq (f : Formula) : f.containsConstants = f.nodes.any isConstant := by
  rw [containsConstants, subformulas_eq_nodes]

@[simp]
theorem containsConstants_constant (b : Bool) : (constant b).containsConstants = true :=
  containsConstants_eq _

@[simp]
theorem containsConstants_atom (name : String) : (atom name).containsConstants = false :=
  containsConstants_eq _

@[simp]
theorem containsConstants_negation (f : Formula) :
    (negation f).containsConstants = f.containsConstants :=
  (containsConstants_eq _).trans (containsConstants_eq f).symm

@[simp]
theorem containsConstants_conjunction (l r : Formula) :
    (conjunction l r).containsConstants = (l.containsConstants || r.containsConstants) := by
  rw [containsConstants_eq l, containsConstants_eq r, ← List.any_append]
  exact containsConstants_eq _

@[simp]
theorem containsConstants_disjunction (l r : Formula) :
    (disjunction l r).containsConstants = (l.containsConstants || r.containsConstants) := by
  rw [containsConstants_eq l, containsConstants_eq r, ← List.any_append]
  exact containsConstants_eq _

/-! ## Depth -/

/-- The depth by recursion: 1 at a leaf, and one more than the deepest operand elsewhere. -/
def height : Formula → Nat
  | constant _ | atom _ => 1
  | negation f => f.height + 1
  | conjunction l r | disjunction l r => max l.height r.height + 1

theorem height_pos (f : Formula) : 0 < f.height := by
  cases f <;> exact Nat.succ_pos _

/-- The level of the deepest node of a formula that sits at a level. -/
def bottom (p : Formula × Nat) : Nat := p.2 + p.1.height - 1

/-- The deepest node is at the level of the formula or below one of its operands. -/
theorem foldl_max_bottom_operands (f : Formula) (level found : Nat) :
    ((f.operands.map (·, level + 1)).map bottom).foldl max (max found level) =
      max found (bottom (f, level)) := by
  cases f with
  | constant b => rfl
  | atom name => rfl
  | negation f =>
      have := f.height_pos
      simp only [operands, List.map_cons, List.map_nil, List.foldl_cons, List.foldl_nil, bottom,
        height]
      omega
  | conjunction l r | disjunction l r =>
      have := l.height_pos
      simp only [operands, List.map_cons, List.map_nil, List.foldl_cons, List.foldl_nil, bottom,
        height]
      omega

theorem deepest_eq_foldl_max (found : Nat) (stack : List (Formula × Nat)) :
    deepest found stack = (stack.map bottom).foldl max found := by
  fun_induction deepest found stack with
  | case1 => rfl
  | case2 found f level stack ih =>
      rw [ih, List.map_append, List.foldl_append, foldl_max_bottom_operands, List.map_cons,
        List.foldl_cons]

theorem depth_eq_height (f : Formula) : f.depth = f.height := by
  rw [depth, deepest_eq_foldl_max, List.map_singleton, List.foldl_cons, List.foldl_nil, bottom,
    Nat.zero_max, Nat.add_comm, Nat.add_sub_cancel]

end Presence.Formula
