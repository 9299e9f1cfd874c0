import Presence.Expression.Outline
import Mathlib.Data.List.Basic
import Mathlib.Data.List.Induction

/-!
# The operator at the root

Tokens are split at the operator that binds loosest among those outside all
brackets, and at the first such (`rootOperator_eq_some_iff`).  What stands in
brackets does not matter: an operator there is passed over as soon as one
outside of them is met.

The scan keeps the best of the operators met so far.  So its result is the best
of the list of all operators with their places (`scanOperators_eq`).
-/

namespace Presence

/-! ## Brackets -/

/-- The number of brackets that are open after the tokens, if no bracket closes
that is not open. -/
def levelAfter (level : Nat) : List Token → Option Nat
  | [] => some level
  | .opening :: tokens => levelAfter (level + 1) tokens
  | .closing :: tokens =>
      match level with
      | 0 => none
      | level + 1 => levelAfter level tokens
  | .operator _ :: tokens => levelAfter level tokens
  | .identifier _ :: tokens => levelAfter level tokens

/-- All brackets pair up. -/
def Balanced (tokens : List Token) : Prop := levelAfter 0 tokens = some 0

instance (tokens : List Token) : Decidable (Balanced tokens) :=
  inferInstanceAs (Decidable (_ = _))

variable {level l index : Nat} {tokens xs ys : List Token} {op : Operator}

theorem levelAfter_append (level : Nat) (xs ys : List Token) :
    levelAfter level (xs ++ ys) = (levelAfter level xs).bind fun l => levelAfter l ys := by
  fun_induction levelAfter level xs with
  | case1 => rfl
  | case2 level tokens ih => exact ih
  | case3 => rfl
  | case4 tokens level ih => exact ih
  | case5 level op tokens ih => exact ih
  | case6 level text tokens ih => exact ih

/-- With one more open bracket around them tokens leave one more open. -/
theorem levelAfter_succ (h : levelAfter level tokens = some l) :
    levelAfter (level + 1) tokens = some (l + 1) := by
  fun_induction levelAfter level tokens with
  | case1 =>
      cases h
      rfl
  | case2 level tokens ih => exact ih h
  | case3 => cases h
  | case4 tokens level ih => exact ih h
  | case5 level op tokens ih => exact ih h
  | case6 level text tokens ih => exact ih h

namespace Balanced

theorem append (hx : Balanced xs) (hy : Balanced ys) : Balanced (xs ++ ys) := by
  rw [Balanced, levelAfter_append, hx]
  exact hy

/-- What is left after balanced tokens is balanced if all is. -/
theorem of_append (h : Balanced (xs ++ ys)) (hx : Balanced xs) : Balanced ys := by
  rw [Balanced, levelAfter_append, hx] at h
  exact h

theorem brackets (h : Balanced xs) : Balanced (.opening :: xs ++ [.closing]) := by
  show levelAfter 1 (xs ++ [.closing]) = some 0
  rw [levelAfter_append, levelAfter_succ h]
  rfl

end Balanced

/-! ## Candidates -/

/-- The operators among the tokens with their places, as far as brackets pair up. -/
def candidates (level index : Nat) : List Token → List Candidate
  | [] => []
  | .opening :: tokens => candidates (level + 1) (index + 1) tokens
  | .closing :: tokens =>
      match level with
      | 0 => []
      | level + 1 => candidates level (index + 1) tokens
  | .operator op :: tokens => ⟨index, level, op⟩ :: candidates level (index + 1) tokens
  | .identifier _ :: tokens => candidates level (index + 1) tokens

/-- The scan finds the best candidate. -/
theorem scanOperators_eq (level index : Nat) (best : Option Candidate) (tokens : List Token) :
    scanOperators level index best tokens =
      if levelAfter level tokens = some 0 then
        some ((candidates level index tokens).foldl Candidate.better best)
      else none := by
  fun_induction scanOperators level index best tokens with
  | case1 => simp [levelAfter, candidates]
  | case2 level _ _ hlevel => simp [levelAfter, hlevel]
  | case3 level index best tokens ih => exact ih
  | case4 => rfl
  | case5 index best tokens level ih => exact ih
  | case6 level index best op tokens ih => exact ih
  | case7 level index best text tokens ih => exact ih

theorem candidates_append (h : levelAfter level xs = some l) :
    candidates level index (xs ++ ys) =
      candidates level index xs ++ candidates l (index + xs.length) ys := by
  induction xs generalizing level index with
  | nil =>
      cases h
      rfl
  | cons token xs ih =>
      rw [List.length_cons, Nat.add_comm xs.length, ← Nat.add_assoc]
      cases token with
      | opening => exact ih h
      | closing =>
          cases level with
          | zero => cases h
          | succ level => exact ih h
      | operator op => exact congrArg _ (ih h)
      | identifier text => exact ih h

/-- Every candidate stands at its place among the tokens. -/
theorem exists_of_candidates_eq_append {before after : List Candidate} {c : Candidate}
    (h : candidates level index tokens = before ++ c :: after) :
    ∃ xs ys, tokens = xs ++ .operator c.op :: ys ∧ c.index = index + xs.length ∧
      levelAfter level xs = some c.level ∧ before = candidates level index xs ∧
      after = candidates c.level (c.index + 1) ys := by
  induction tokens generalizing level index before with
  | nil => simp [candidates] at h
  | cons token tokens ih =>
      have hlength : ∀ xs : List Token, index + 1 + xs.length = index + (token :: xs).length := by
        intro xs
        rw [List.length_cons]
        omega
      cases token with
      | opening =>
          obtain ⟨xs, ys, rfl, hindex, hlevel, hbefore, hafter⟩ := ih h
          exact ⟨.opening :: xs, ys, rfl, hindex.trans (hlength xs), hlevel, hbefore, hafter⟩
      | closing =>
          cases level with
          | zero => simp [candidates] at h
          | succ level =>
              obtain ⟨xs, ys, rfl, hindex, hlevel, hbefore, hafter⟩ := ih h
              exact ⟨.closing :: xs, ys, rfl, hindex.trans (hlength xs), hlevel, hbefore, hafter⟩
      | operator op =>
          cases before with
          | nil =>
              rw [candidates, List.nil_append, List.cons.injEq] at h
              obtain ⟨rfl, rfl⟩ := h
              exact ⟨[], tokens, rfl, rfl, rfl, rfl, rfl⟩
          | cons d before =>
              rw [candidates, List.cons_append, List.cons.injEq] at h
              obtain ⟨rfl, h⟩ := h
              obtain ⟨xs, ys, rfl, hindex, hlevel, rfl, hafter⟩ := ih h
              exact ⟨.operator op :: xs, ys, rfl, hindex.trans (hlength xs), hlevel, rfl, hafter⟩
      | identifier text =>
          obtain ⟨xs, ys, rfl, hindex, hlevel, hbefore, hafter⟩ := ih h
          exact ⟨.identifier text :: xs, ys, rfl, hindex.trans (hlength xs), hlevel, hbefore,
            hafter⟩

/-! ## The best candidate -/

/-- The later candidate takes the place of the earlier one. -/
def Candidate.Beats (later earlier : Candidate) : Prop :=
  later.level < earlier.level ∨
    later.level = earlier.level ∧ earlier.op.precedence < later.op.precedence

namespace Candidate

variable {before after cs : List Candidate} {c d : Candidate}

theorem better_of_beats (h : d.Beats c) : better (some c) d = some d := if_pos h

theorem better_of_not_beats (h : ¬d.Beats c) : better (some c) d = some c := if_neg h

theorem Beats.trans {e : Candidate} (h : c.Beats d) (h' : d.Beats e) : c.Beats e := by
  unfold Beats at *
  omega

/-- Whoever beats a candidate beats all that do not beat it. -/
theorem Beats.of_not_beats {e : Candidate} (h : c.Beats d) (h' : ¬e.Beats d) : c.Beats e := by
  unfold Beats at *
  omega

theorem foldl_better_eq_none (h : cs.foldl better none = none) : cs = [] := by
  induction cs using List.reverseRecOn with
  | nil => rfl
  | append_singleton cs d _ =>
      rw [List.foldl_append, List.foldl_cons, List.foldl_nil] at h
      cases hcs : cs.foldl better none with
      | none =>
          rw [hcs] at h
          cases h
      | some e =>
          rw [hcs, better] at h
          split at h <;> cases h

/-- The best candidate beats all before it and is beaten by none after it. -/
theorem exists_of_foldl_better (h : cs.foldl better none = some c) :
    ∃ before after, cs = before ++ c :: after ∧ (∀ d ∈ before, c.Beats d) ∧
      ∀ d ∈ after, ¬d.Beats c := by
  induction cs using List.reverseRecOn generalizing c with
  | nil => cases h
  | append_singleton cs d ih =>
      rw [List.foldl_append, List.foldl_cons, List.foldl_nil] at h
      cases hcs : cs.foldl better none with
      | none =>
          rw [hcs] at h
          cases h
          rw [foldl_better_eq_none hcs]
          exact ⟨[], [], rfl, List.forall_mem_nil _, List.forall_mem_nil _⟩
      | some e =>
          obtain ⟨before, after, rfl, hbefore, hafter⟩ := ih hcs
          rw [hcs] at h
          by_cases hd : d.Beats e
          · rw [better_of_beats hd] at h
            cases h
            refine ⟨_, [], rfl, fun x hx => ?_, List.forall_mem_nil _⟩
            rcases List.mem_append.1 hx with hx | hx
            · exact hd.trans (hbefore x hx)
            · rcases List.mem_cons.1 hx with rfl | hx
              · exact hd
              · exact hd.of_not_beats (hafter x hx)
          · rw [better_of_not_beats hd] at h
            cases h
            refine ⟨before, after ++ [d], ?_, hbefore, fun x hx => ?_⟩
            · rw [List.append_assoc, List.cons_append]
            · rcases List.mem_append.1 hx with hx | hx
              · exact hafter x hx
              · rw [List.mem_singleton.1 hx]
                exact hd

/-- What comes later without beating the best candidate changes nothing. -/
theorem foldl_better_of_not_beats (h : ∀ d ∈ cs, ¬d.Beats c) :
    cs.foldl better (some c) = some c := by
  induction cs with
  | nil => rfl
  | cons d cs ih =>
      obtain ⟨hd, hcs⟩ := List.forall_mem_cons.1 h
      rw [List.foldl_cons, better_of_not_beats hd, ih hcs]

theorem foldl_better_eq_some_iff :
    cs.foldl better none = some c ↔
      ∃ before after, cs = before ++ c :: after ∧ (∀ d ∈ before, c.Beats d) ∧
        ∀ d ∈ after, ¬d.Beats c := by
  refine ⟨exists_of_foldl_better, ?_⟩
  rintro ⟨before, after, rfl, hbefore, hafter⟩
  have hc : better (before.foldl better none) c = some c := by
    cases h : before.foldl better none with
    | none => rfl
    | some d =>
        obtain ⟨_, _, rfl, _, _⟩ := exists_of_foldl_better h
        exact better_of_beats (hbefore d (List.mem_append_right _ List.mem_cons_self))
  rw [List.foldl_append, List.foldl_cons, hc, foldl_better_of_not_beats hafter]

end Candidate

/-! ## Operators outside of brackets -/

/-- The operators outside of all brackets, as far as brackets pair up. -/
def outerOperators (level : Nat) : List Token → List Operator
  | [] => []
  | .opening :: tokens => outerOperators (level + 1) tokens
  | .closing :: tokens =>
      match level with
      | 0 => []
      | level + 1 => outerOperators level tokens
  | .operator op :: tokens =>
      if level = 0 then op :: outerOperators level tokens else outerOperators level tokens
  | .identifier _ :: tokens => outerOperators level tokens

/-- They are the candidates on level 0. -/
theorem mem_outerOperators (index : Nat) :
    op ∈ outerOperators level tokens ↔
      ∃ c ∈ candidates level index tokens, c.level = 0 ∧ c.op = op := by
  induction tokens generalizing level index with
  | nil => simp [outerOperators, candidates]
  | cons token tokens ih =>
      cases token with
      | opening => exact ih (index + 1)
      | closing =>
          cases level with
          | zero => simp [outerOperators, candidates]
          | succ level => exact ih (index + 1)
      | operator o =>
          rw [candidates, List.exists_mem_cons_iff, ← ih, outerOperators]
          split
          next hlevel => simp [hlevel, eq_comm]
          next hlevel => simp [hlevel]
      | identifier text => exact ih (index + 1)

theorem outerOperators_append (h : levelAfter level xs = some l) :
    outerOperators level (xs ++ ys) = outerOperators level xs ++ outerOperators l ys := by
  induction xs generalizing level with
  | nil =>
      cases h
      rfl
  | cons token xs ih =>
      cases token with
      | opening => exact ih h
      | closing =>
          cases level with
          | zero => cases h
          | succ level => exact ih h
      | operator o =>
          rw [List.cons_append, outerOperators, outerOperators, ih h]
          split <;> rfl
      | identifier text => exact ih h

/-- Inside of one more bracket no operator is outside of all brackets. -/
theorem outerOperators_succ (h : levelAfter level tokens = some l) :
    outerOperators (level + 1) tokens = [] := by
  induction tokens generalizing level with
  | nil => rfl
  | cons token tokens ih =>
      cases token with
      | opening => exact ih h
      | closing =>
          cases level with
          | zero => cases h
          | succ level => exact ih h
      | operator o => exact ih h
      | identifier text => exact ih h

theorem Balanced.outerOperators_brackets (h : Balanced xs) :
    outerOperators 0 (.opening :: xs ++ [.closing]) = [] := by
  show outerOperators 1 (xs ++ [.closing]) = []
  rw [outerOperators_append (levelAfter_succ h), outerOperators_succ h]
  rfl

/-! ## The operator at the root -/

/-- The operator is the first of the loosest ones outside of all brackets, with
these tokens on its sides. -/
structure IsRoot (xs : List Token) (op : Operator) (ys : List Token) : Prop where
  /-- On the left all brackets pair up. -/
  left : Balanced xs
  /-- On the right they do, too. -/
  right : Balanced ys
  /-- What comes before the operator binds tighter. -/
  before : ∀ o ∈ outerOperators 0 xs, o.precedence < op.precedence
  /-- What comes after it does not bind looser. -/
  after : ∀ o ∈ outerOperators 0 ys, o.precedence ≤ op.precedence

/-- Outside of brackets no operator binds looser than the root. -/
theorem IsRoot.precedence_le (h : IsRoot xs op ys) :
    ∀ o ∈ outerOperators 0 (xs ++ .operator op :: ys), o.precedence ≤ op.precedence := by
  rw [outerOperators_append h.left, List.forall_mem_append]
  refine ⟨fun o ho => Nat.le_of_lt (h.before o ho), ?_⟩
  exact List.forall_mem_cons.2 ⟨Nat.le_refl _, h.after⟩

/-- The result of the scan, seen from the candidates. -/
theorem rootOperator_eq (tokens : List Token) :
    rootOperator tokens =
      if Balanced tokens then
        .ok (((candidates 0 0 tokens).foldl Candidate.better none).bind fun best =>
          if best.level = 0 then some (best.index, best.op) else none)
      else .error .unbalancedBrackets := by
  rw [rootOperator, scanOperators_eq]
  by_cases h : levelAfter 0 tokens = some 0
  · rw [if_pos h, if_pos (show Balanced tokens from h)]
    cases (candidates 0 0 tokens).foldl Candidate.better none <;> rfl
  · rw [if_neg h, if_neg (show ¬Balanced tokens from h)]

/-- The root is the first of the operators outside of all brackets that bind loosest. -/
theorem rootOperator_eq_some_iff :
    rootOperator tokens = .ok (some (index, op)) ↔
      ∃ xs ys, tokens = xs ++ .operator op :: ys ∧ index = xs.length ∧ IsRoot xs op ys := by
  rw [rootOperator_eq]
  constructor
  · intro h
    split at h
    next hbalanced =>
      obtain ⟨best, hbest, h⟩ := Option.bind_eq_some_iff.1 (Except.ok.inj h)
      split at h
      next hlevel =>
        cases h
        obtain ⟨before, after, hcandidates, hbefore, hafter⟩ :=
          Candidate.foldl_better_eq_some_iff.1 hbest
        obtain ⟨xs, ys, rfl, hindex, hxs, rfl, rfl⟩ := exists_of_candidates_eq_append hcandidates
        rw [hlevel] at hxs
        have hys : Balanced (.operator best.op :: ys) := hbalanced.of_append hxs
        rw [Nat.zero_add] at hindex
        refine ⟨xs, ys, rfl, hindex, hxs, hys, fun o ho => ?_, fun o ho => ?_⟩
        · obtain ⟨d, hd, hdlevel, rfl⟩ := (mem_outerOperators 0).1 ho
          rcases hbefore d hd with h | ⟨_, h⟩
          · omega
          · exact h
        · rw [mem_outerOperators (best.index + 1)] at ho
          obtain ⟨d, hd, hdlevel, rfl⟩ := ho
          rw [← hlevel] at hd
          by_contra hlt
          exact hafter d hd (Or.inr ⟨by omega, by omega⟩)
      next => cases h
    next => cases h
  · rintro ⟨xs, ys, rfl, rfl, ⟨hxs, hys, hbefore, hafter⟩⟩
    have hbalanced : Balanced (xs ++ .operator op :: ys) := hxs.append hys
    have hbest : (candidates 0 0 (xs ++ .operator op :: ys)).foldl Candidate.better none =
        some ⟨xs.length, 0, op⟩ := by
      refine Candidate.foldl_better_eq_some_iff.2
        ⟨candidates 0 0 xs, candidates 0 (xs.length + 1) ys, ?_, fun d hd => ?_, fun d hd h => ?_⟩
      · rw [candidates_append hxs, Nat.zero_add]
        rfl
      -- Only what is outside of all brackets has to bind tighter.
      · by_cases hlevel : d.level = 0
        · have := hbefore d.op ((mem_outerOperators 0).2 ⟨d, hd, hlevel, rfl⟩)
          exact Or.inr ⟨hlevel.symm, this⟩
        · exact Or.inl (Nat.pos_of_ne_zero hlevel)
      · rcases h with h | ⟨hlevel, h⟩
        · exact Nat.not_lt_zero _ h
        · have := hafter d.op ((mem_outerOperators _).2 ⟨d, hd, hlevel, rfl⟩)
          exact Nat.not_lt_of_le this h
    rw [if_pos hbalanced, hbest]
    rfl

/-- There is no root if there is no operator outside of brackets. -/
theorem rootOperator_eq_none_iff :
    rootOperator tokens = .ok none ↔ Balanced tokens ∧ outerOperators 0 tokens = [] := by
  have houter : outerOperators 0 tokens = [] ↔ ∀ c ∈ candidates 0 0 tokens, c.level ≠ 0 := by
    rw [List.eq_nil_iff_forall_not_mem]
    refine ⟨fun h c hc hlevel => h c.op ((mem_outerOperators 0).2 ⟨c, hc, hlevel, rfl⟩), ?_⟩
    intro h op hop
    obtain ⟨c, hc, hlevel, _⟩ := (mem_outerOperators 0).1 hop
    exact h c hc hlevel
  rw [rootOperator_eq, houter]
  by_cases hbalanced : Balanced tokens
  · rw [if_pos hbalanced, and_iff_right hbalanced, Except.ok.injEq]
    cases hbest : (candidates 0 0 tokens).foldl Candidate.better none with
    | none => simp [Candidate.foldl_better_eq_none hbest]
    | some best =>
        obtain ⟨before, after, hcandidates, hbefore, hafter⟩ :=
          Candidate.foldl_better_eq_some_iff.1 hbest
        rw [hcandidates, Option.bind_some]
        constructor
        -- All others are in at least as many brackets as the best.
        · intro h
          have hlevel : best.level ≠ 0 := fun hlevel => by simp [hlevel] at h
          intro c hc
          rcases List.mem_append.1 hc with hc | hc
          · rcases hbefore c hc with h | ⟨h, _⟩ <;> omega
          · rcases List.mem_cons.1 hc with rfl | hc
            · exact hlevel
            · exact fun hzero => hafter c hc (Or.inl (by omega))
        · intro h
          rw [if_neg (h best (List.mem_append_right _ List.mem_cons_self))]
  · rw [if_neg hbalanced]
    simp [hbalanced]

end Presence
