import Presence.Proofs.Expression.RootOperator

/-!
# Counting brackets

Whether brackets pair up can be told by counting them: nowhere have more been closed than opened,
and in the end there are as many of either kind (`balanced_iff_not_unpaired`).  Likewise an operator
is outside of all brackets if as many are closed before it as are opened (`StandsOutside`).

What the scan for the operator at the root finds is thus known from counts and precedences alone
(`rootOperator_outcome`).  Nothing is said there of operators inside of brackets, so they do not
matter, however loosely they bind and wherever they stand.
-/

namespace Presence

variable {level l index j : Nat} {tokens xs ys : List Token} {op o : Operator}

/-! ## Levels -/

/-- The level rises with each opened bracket and falls with each closed one. -/
theorem add_count_of_levelAfter (h : levelAfter level tokens = some l) :
    level + tokens.count .opening = l + tokens.count .closing := by
  fun_induction levelAfter level tokens with
  | case1 =>
      cases h
      rfl
  | case2 level tokens ih =>
      have hcount := ih h
      rw [List.count_cons_self, List.count_cons_of_ne (by decide)]
      omega
  | case3 => cases h
  | case4 tokens level ih =>
      have hcount := ih h
      rw [List.count_cons_self, List.count_cons_of_ne (by decide)]
      omega
  | case5 level op tokens ih | case6 level text tokens ih =>
      rw [List.count_cons_of_ne (by simp), List.count_cons_of_ne (by simp)]
      exact ih h

/-- There is no level if somewhere a bracket is closed that is not open. -/
theorem levelAfter_eq_none_iff :
    levelAfter level tokens = none ↔
      ∃ xs, xs <+: tokens ∧ level + xs.count .opening < xs.count .closing := by
  constructor
  · intro h
    fun_induction levelAfter level tokens with
    | case1 => cases h
    | case2 level tokens ih =>
        obtain ⟨xs, hxs, hcount⟩ := ih h
        refine ⟨.opening :: xs, List.cons_prefix_cons.2 ⟨rfl, hxs⟩, ?_⟩
        rw [List.count_cons_self, List.count_cons_of_ne (by decide)]
        omega
    | case3 tokens => exact ⟨[.closing], List.cons_prefix_cons.2 ⟨rfl, List.nil_prefix⟩, by decide⟩
    | case4 tokens level ih =>
        obtain ⟨xs, hxs, hcount⟩ := ih h
        refine ⟨.closing :: xs, List.cons_prefix_cons.2 ⟨rfl, hxs⟩, ?_⟩
        rw [List.count_cons_self, List.count_cons_of_ne (by decide)]
        omega
    | case5 level op tokens ih =>
        obtain ⟨xs, hxs, hcount⟩ := ih h
        refine ⟨.operator op :: xs, List.cons_prefix_cons.2 ⟨rfl, hxs⟩, ?_⟩
        rwa [List.count_cons_of_ne (by simp), List.count_cons_of_ne (by simp)]
    | case6 level text tokens ih =>
        obtain ⟨xs, hxs, hcount⟩ := ih h
        refine ⟨.identifier text :: xs, List.cons_prefix_cons.2 ⟨rfl, hxs⟩, ?_⟩
        rwa [List.count_cons_of_ne (by simp), List.count_cons_of_ne (by simp)]
  · rintro ⟨xs, ⟨ys, rfl⟩, hcount⟩
    rw [levelAfter_append]
    cases h : levelAfter level xs with
    | none => rfl
    | some l =>
        have := add_count_of_levelAfter h
        omega

/-- Somewhere more brackets have been closed than opened, or there are not as many closing as
opening ones. -/
def Unpaired (tokens : List Token) : Prop :=
  (∃ xs, xs <+: tokens ∧ xs.count .opening < xs.count .closing) ∨
    tokens.count .opening ≠ tokens.count .closing

theorem balanced_iff_not_unpaired : Balanced tokens ↔ ¬Unpaired tokens := by
  have hnone : levelAfter 0 tokens = none ↔
      ∃ xs, xs <+: tokens ∧ xs.count .opening < xs.count .closing := by
    simp only [levelAfter_eq_none_iff, Nat.zero_add]
  rw [Unpaired, ← hnone, Balanced]
  cases h : levelAfter 0 tokens with
  | none => simp
  | some l =>
      have hcount := add_count_of_levelAfter h
      simp only [Option.some.injEq, reduceCtorEq, false_or]
      omega

/-- What comes before some place in balanced tokens is balanced if as many brackets are closed
there as are opened. -/
theorem Balanced.balanced_left_iff (h : Balanced (xs ++ ys)) :
    Balanced xs ↔ xs.count .opening = xs.count .closing := by
  rw [Balanced, levelAfter_append, Option.bind_eq_some_iff] at h
  obtain ⟨l, hl, -⟩ := h
  have hcount := add_count_of_levelAfter hl
  rw [Balanced, hl, Option.some.injEq]
  omega

/-! ## Operators outside of brackets -/

/-- The operator is among the tokens, with this many before it, and as many brackets are closed
before it as are opened. -/
structure StandsOutside (tokens : List Token) (index : Nat) (op : Operator) : Prop where
  /-- It is there. -/
  getElem?_eq : tokens[index]? = some (.operator op)
  /-- No bracket is open around it. -/
  count_eq : (tokens.take index).count .opening = (tokens.take index).count .closing

theorem standsOutside_append_left (hj : j < xs.length) :
    StandsOutside (xs ++ ys) j o ↔ StandsOutside xs j o := by
  have hget : (xs ++ ys)[j]? = xs[j]? := List.getElem?_append_left hj
  have htake : (xs ++ ys).take j = xs.take j := List.take_append_of_le_length (Nat.le_of_lt hj)
  constructor
  · rintro ⟨hop, hcount⟩
    exact ⟨hget ▸ hop, htake ▸ hcount⟩
  · rintro ⟨hop, hcount⟩
    exact ⟨hget.trans hop, by rwa [htake]⟩

namespace Balanced

/-- In balanced tokens these are the operators after tokens that are balanced themselves. -/
theorem standsOutside_iff (h : Balanced tokens) :
    StandsOutside tokens index op ↔
      ∃ xs ys, tokens = xs ++ .operator op :: ys ∧ index = xs.length ∧ Balanced xs := by
  constructor
  · rintro ⟨hop, hcount⟩
    obtain ⟨hlt, hget⟩ := List.getElem?_eq_some_iff.1 hop
    have hsplit : tokens.take index ++ .operator op :: tokens.drop (index + 1) = tokens := by
      rw [← hget, List.getElem_cons_drop, List.take_append_drop]
    rw [← hsplit] at h
    exact ⟨_, _, hsplit.symm, (List.length_take_of_le (Nat.le_of_lt hlt)).symm,
      h.balanced_left_iff.2 hcount⟩
  · rintro ⟨xs, ys, rfl, rfl, hxs⟩
    refine ⟨by simp, ?_⟩
    rw [List.take_left]
    exact h.balanced_left_iff.1 hxs

theorem exists_standsOutside_iff (h : Balanced tokens) :
    (∃ index, StandsOutside tokens index op) ↔ op ∈ outerOperators 0 tokens := by
  simp only [h.standsOutside_iff]
  constructor
  · rintro ⟨_, xs, ys, rfl, -, hxs⟩
    rw [outerOperators_append hxs]
    exact List.mem_append_right _ List.mem_cons_self
  · intro hop
    obtain ⟨c, hc, hlevel, rfl⟩ := (mem_outerOperators 0).1 hop
    obtain ⟨before, after, hcandidates⟩ := List.append_of_mem hc
    obtain ⟨xs, ys, rfl, -, hxs, -, -⟩ := exists_of_candidates_eq_append hcandidates
    rw [hlevel] at hxs
    exact ⟨xs.length, xs, ys, rfl, rfl, hxs⟩

end Balanced

/-! ## The outcome of the scan -/

theorem rootOperator_eq_error_iff {cause : ExpressionError} :
    rootOperator tokens = .error cause ↔ cause = .unbalancedBrackets ∧ ¬Balanced tokens := by
  rw [rootOperator_eq]
  by_cases h : Balanced tokens
  · rw [if_pos h]
    simp [h]
  · rw [if_neg h, Except.error.injEq, and_iff_left h, eq_comm]

/-- The root is the first of the loosest ones among the operators that stand outside. -/
theorem rootOperator_eq_some_iff_standsOutside :
    rootOperator tokens = .ok (some (index, op)) ↔
      Balanced tokens ∧ StandsOutside tokens index op ∧
        ∀ j o, StandsOutside tokens j o →
          o.precedence ≤ op.precedence ∧ (j < index → o.precedence < op.precedence) := by
  rw [rootOperator_eq_some_iff]
  constructor
  · rintro ⟨xs, ys, rfl, rfl, isRoot⟩
    have hbalanced : Balanced (xs ++ .operator op :: ys) := isRoot.left.append isRoot.right
    refine ⟨hbalanced, hbalanced.standsOutside_iff.2 ⟨xs, ys, rfl, rfl, isRoot.left⟩, ?_⟩
    intro j o hstands
    refine ⟨isRoot.precedence_le o (hbalanced.exists_standsOutside_iff.1 ⟨j, hstands⟩), ?_⟩
    intro hj
    rw [standsOutside_append_left hj] at hstands
    exact isRoot.before o (isRoot.left.exists_standsOutside_iff.1 ⟨j, hstands⟩)
  · rintro ⟨hbalanced, hstands, hloosest⟩
    obtain ⟨xs, ys, rfl, rfl, hxs⟩ := hbalanced.standsOutside_iff.1 hstands
    have hys : Balanced (.operator op :: ys) := hbalanced.of_append hxs
    refine ⟨xs, ys, rfl, rfl, hxs, hys, fun o ho => ?_, fun o ho => ?_⟩
    · obtain ⟨j, hj⟩ := hxs.exists_standsOutside_iff.2 ho
      have hlt : j < xs.length := (List.getElem?_eq_some_iff.1 hj.getElem?_eq).1
      exact (hloosest j o ((standsOutside_append_left hlt).2 hj)).2 hlt
    · have hmem : o ∈ outerOperators 0 (xs ++ .operator op :: ys) := by
        rw [outerOperators_append hxs]
        exact List.mem_append_right _ (List.mem_cons_of_mem _ ho)
      obtain ⟨j, hj⟩ := hbalanced.exists_standsOutside_iff.2 hmem
      exact (hloosest j o hj).1

theorem rootOperator_eq_none_iff_standsOutside :
    rootOperator tokens = .ok none ↔
      Balanced tokens ∧ ∀ index op, ¬StandsOutside tokens index op := by
  rw [rootOperator_eq_none_iff, List.eq_nil_iff_forall_not_mem]
  refine and_congr_right fun hbalanced => ?_
  simp only [← hbalanced.exists_standsOutside_iff, not_exists]
  exact forall_comm

/-- The scan fails only for unbalanced brackets, and it does so exactly if somewhere more have been
closed than opened or if there are not as many of either kind.  Otherwise it finds the operator
that is the first of those with the largest precedence among all that stand outside, and it finds
none exactly if none stands outside. -/
theorem rootOperator_outcome (tokens : List Token) :
    (∀ cause, rootOperator tokens = .error cause ↔
      cause = .unbalancedBrackets ∧ Unpaired tokens) ∧
    (∀ index op, rootOperator tokens = .ok (some (index, op)) ↔
      ¬Unpaired tokens ∧ StandsOutside tokens index op ∧
        ∀ j o, StandsOutside tokens j o →
          o.precedence ≤ op.precedence ∧ (j < index → o.precedence < op.precedence)) ∧
    (rootOperator tokens = .ok none ↔
      ¬Unpaired tokens ∧ ∀ index op, ¬StandsOutside tokens index op) := by
  rw [← balanced_iff_not_unpaired]
  refine ⟨fun cause => ?_, fun index op => ?_, rootOperator_eq_none_iff_standsOutside⟩
  · rw [rootOperator_eq_error_iff, balanced_iff_not_unpaired, not_not]
  · exact rootOperator_eq_some_iff_standsOutside

/-- In `(A || B) && !C || !(D || E)` the first operator outside of the brackets that binds loosest
is the second `||`. -/
example : rootOperator [.opening, .identifier "A", .operator .or, .identifier "B", .closing,
    .operator .and, .operator .not, .identifier "C", .operator .or, .operator .not, .opening,
    .identifier "D", .operator .or, .identifier "E", .closing] = .ok (some (8, .or)) := by decide

end Presence
