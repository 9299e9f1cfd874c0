import Presence.Proofs.Except
import Presence.Proofs.Expression.RootOperator

/-!
# Reading tokens

Tokens *read as* a formula if their outline means it.  There are four ways to
read as a formula (`ReadsAs`): a single identifier, a unary operator at the root
with its operand, a binary operator at the root with its operands, and brackets
around tokens that read as the formula.  Every way but the first takes a level.

What the outline of a row of tokens means is thus known from the derivations of
`ReadsAs` (`interpret_ofTokens_eq_ok_iff`), and later proofs look at these only.
-/

namespace Presence

/-- Within the levels the tokens read as the formula. -/
inductive ReadsAs (g : Grammar) : (levels : Nat) → List Token → Formula → Prop where
  /-- An identifier stands for itself. -/
  | identifier {levels text f} (meaning : g.identifier text = .ok f) :
      ReadsAs g (levels + 1) [.identifier text] f
  /-- A unary operator has its operand on the right. -/
  | unary {levels op xs x f} (isRoot : IsRoot [] op xs) (arity : op.arity = .unary)
      (operand : ReadsAs g levels xs x) (meaning : g.unary op x = .ok f) :
      ReadsAs g (levels + 1) (.operator op :: xs) f
  /-- A binary operator has an operand on each side. -/
  | binary {levels op xs ys x y f} (isRoot : IsRoot xs op ys) (arity : op.arity = .binary)
      (left : ReadsAs g levels xs x) (right : ReadsAs g levels ys y)
      (meaning : g.binary op x y = .ok f) :
      ReadsAs g (levels + 1) (xs ++ .operator op :: ys) f
  /-- Brackets around tokens without a root are stripped off. -/
  | brackets {levels xs f} (balanced : Balanced (.opening :: xs ++ [.closing]))
      (noRoot : outerOperators 0 (.opening :: xs ++ [.closing]) = [])
      (inner : ReadsAs g levels xs f) : ReadsAs g (levels + 1) (.opening :: xs ++ [.closing]) f

variable {g : Grammar} {maxDepth levels : Nat} {tokens : List Token} {f : Formula}

/-! ## Meaning of outlines -/

namespace Outline

variable {op : Operator} {operand left right : Outline} {cause : ExpressionError}

theorem interpret_identifier {text : String} :
    ((identifier text).interpret g).2 = .ok f ↔ g.identifier text = .ok f := by
  rw [interpret]
  cases g.identifier text with
  | error cause => rfl
  | ok f' => rfl

theorem snd_interpret_unary :
    ((unary op operand).interpret g).2 = (operand.interpret g).2 >>= g.unary op := by
  rw [interpret]
  rcases operand.interpret g with ⟨names, cause | x⟩
  · rfl
  · rfl

theorem snd_interpret_binary :
    ((binary op left right).interpret g).2 =
      (left.interpret g).2 >>= fun x => (right.interpret g).2 >>= g.binary op x := by
  rw [interpret]
  rcases left.interpret g with ⟨names, cause | x⟩
  · rfl
  · rcases right.interpret g with ⟨more, cause | y⟩
    · rfl
    · rfl

theorem interpret_unary :
    ((unary op operand).interpret g).2 = .ok f ↔
      ∃ x, (operand.interpret g).2 = .ok x ∧ g.unary op x = .ok f := by
  rw [snd_interpret_unary, bind_eq_ok_iff]

theorem interpret_binary :
    ((binary op left right).interpret g).2 = .ok f ↔
      ∃ x y, (left.interpret g).2 = .ok x ∧ (right.interpret g).2 = .ok y ∧
        g.binary op x y = .ok f := by
  simp only [snd_interpret_binary, bind_eq_ok_iff, exists_and_left]

theorem interpret_fault : ((fault cause).interpret g).2 ≠ .ok f := by
  rw [interpret]
  exact nofun

/-- Brackets are stripped off from what begins and ends with them. -/
theorem stripBrackets_eq_ok_iff {first last : Token} {middle inner : List Token} :
    stripBrackets (first :: middle ++ [last]) = .ok inner ↔
      first = .opening ∧ last = .closing ∧ middle = inner := by
  rw [stripBrackets, List.getLast?_append]
  cases first <;> cases last <;> simp

theorem eq_of_stripBrackets {inner : List Token} (hlength : 2 ≤ tokens.length)
    (h : stripBrackets tokens = .ok inner) : tokens = .opening :: inner ++ [.closing] := by
  rcases tokens with _ | ⟨first, rest⟩
  · cases hlength
  · rcases List.eq_nil_or_concat rest with rfl | ⟨middle, last, rfl⟩
    · exact absurd hlength (by simp)
    · rw [List.concat_eq_append] at h ⊢
      obtain ⟨rfl, rfl, rfl⟩ := stripBrackets_eq_ok_iff.1 h
      rfl

/-- Two or more tokens are split at their root, or else brackets are stripped off. -/
theorem ofTokens_succ (h : 2 ≤ tokens.length) :
    ofTokens maxDepth (levels + 1) tokens =
      match rootOperator tokens with
      | .error cause => fault cause
      | .ok (some (index, op)) =>
          match op.arity with
          | .unary =>
              if index = 0 then unary op (ofTokens maxDepth levels tokens.tail)
              else fault (.misplacedUnaryOperator op.symbol)
          | .binary =>
              binary op (ofTokens maxDepth levels (tokens.take index))
                (ofTokens maxDepth levels (tokens.drop (index + 1)))
      | .ok none =>
          match stripBrackets tokens with
          | .error cause => fault cause
          | .ok inner => ofTokens maxDepth levels inner := by
  rcases tokens with _ | ⟨first, _ | ⟨second, rest⟩⟩
  · cases h
  · cases Nat.not_lt_of_le h Nat.one_lt_two
  · cases first <;> rfl

variable {xs ys : List Token}

/-- At a unary root the operand on its right is outlined. -/
theorem ofTokens_unary (isRoot : IsRoot [] op xs) (arity : op.arity = .unary) (hxs : xs ≠ []) :
    ofTokens maxDepth (levels + 1) (.operator op :: xs) = unary op (ofTokens maxDepth levels xs) := by
  have hlength : 2 ≤ (Token.operator op :: xs).length :=
    Nat.succ_le_succ (List.length_pos_of_ne_nil hxs)
  have hroot : rootOperator (.operator op :: xs) = .ok (some (0, op)) :=
    rootOperator_eq_some_iff.2 ⟨[], xs, rfl, rfl, isRoot⟩
  rw [ofTokens_succ hlength, hroot]
  simp only [arity, ↓reduceIte, List.tail_cons]

/-- At a binary root the operands on its sides are outlined. -/
theorem ofTokens_binary (isRoot : IsRoot xs op ys) (arity : op.arity = .binary)
    (hsides : xs ≠ [] ∨ ys ≠ []) :
    ofTokens maxDepth (levels + 1) (xs ++ .operator op :: ys) =
      binary op (ofTokens maxDepth levels xs) (ofTokens maxDepth levels ys) := by
  have hlength : 2 ≤ (xs ++ Token.operator op :: ys).length := by
    rw [List.length_append, List.length_cons]
    rcases hsides with hxs | hys
    · have := List.length_pos_of_ne_nil hxs
      omega
    · have := List.length_pos_of_ne_nil hys
      omega
  have hroot : rootOperator (xs ++ .operator op :: ys) = .ok (some (xs.length, op)) :=
    rootOperator_eq_some_iff.2 ⟨xs, ys, rfl, rfl, isRoot⟩
  rw [ofTokens_succ hlength, hroot]
  simp only [arity, List.take_left, List.drop_length_add_append, List.drop_one, List.tail_cons]

/-- Without a root, what stands in the brackets is outlined. -/
theorem ofTokens_brackets (balanced : Balanced (.opening :: xs ++ [.closing]))
    (noRoot : outerOperators 0 (.opening :: xs ++ [.closing]) = []) :
    ofTokens maxDepth (levels + 1) (.opening :: xs ++ [.closing]) = ofTokens maxDepth levels xs := by
  have hlength : 2 ≤ (Token.opening :: xs ++ [Token.closing]).length := by simp
  have hstrip : stripBrackets (.opening :: xs ++ [.closing]) = .ok xs :=
    stripBrackets_eq_ok_iff.2 ⟨rfl, rfl, rfl⟩
  rw [ofTokens_succ hlength, rootOperator_eq_none_iff.2 ⟨balanced, noRoot⟩, hstrip]

end Outline

/-! ## Outlines of what reads as a formula -/

namespace ReadsAs

theorem ne_nil (h : ReadsAs g levels tokens f) : tokens ≠ [] := by
  cases h with
  | identifier _ => exact List.cons_ne_nil _ _
  | unary _ _ _ _ => exact List.cons_ne_nil _ _
  | binary _ _ _ _ _ => exact List.append_ne_nil_of_right_ne_nil _ (List.cons_ne_nil _ _)
  | brackets _ _ _ => exact List.cons_ne_nil _ _

/-- What reads as a formula has an outline that means it. -/
theorem interpret_ofTokens (h : ReadsAs g levels tokens f) (maxDepth : Nat) :
    ((Outline.ofTokens maxDepth levels tokens).interpret g).2 = .ok f := by
  induction h with
  | identifier meaning => exact Outline.interpret_identifier.2 meaning
  | unary isRoot arity operand meaning ih =>
      rw [Outline.ofTokens_unary isRoot arity operand.ne_nil]
      exact Outline.interpret_unary.2 ⟨_, ih, meaning⟩
  | binary isRoot arity left _ meaning ihl ihr =>
      rw [Outline.ofTokens_binary isRoot arity (Or.inl left.ne_nil)]
      exact Outline.interpret_binary.2 ⟨_, _, ihl, ihr, meaning⟩
  | brackets balanced noRoot _ ih =>
      rw [Outline.ofTokens_brackets balanced noRoot]
      exact ih

end ReadsAs

/-- A token alone has a meaning only if it is an identifier. -/
theorem readsAs_of_interpret_singleton {token : Token}
    (h : ((Outline.ofTokens maxDepth (levels + 1) [token]).interpret g).2 = .ok f) :
    ReadsAs g (levels + 1) [token] f := by
  cases token with
  | identifier text => exact .identifier (Outline.interpret_identifier.1 h)
  | opening | closing | operator op => cases Outline.interpret_fault h

/-- Tokens whose outline means a formula read as it. -/
theorem readsAs_of_interpret
    (h : ((Outline.ofTokens maxDepth levels tokens).interpret g).2 = .ok f) :
    ReadsAs g levels tokens f := by
  induction levels generalizing tokens f with
  | zero => cases Outline.interpret_fault h
  | succ levels ih =>
      rcases Nat.lt_or_ge tokens.length 2 with hlength | hlength
      · rcases tokens with _ | ⟨token, _ | ⟨second, rest⟩⟩
        · cases Outline.interpret_fault h
        · exact readsAs_of_interpret_singleton h
        · exact absurd hlength (by simp)
      rw [Outline.ofTokens_succ hlength] at h
      split at h
      next => cases Outline.interpret_fault h
      next index op hroot =>
        obtain ⟨xs, ys, rfl, rfl, isRoot⟩ := rootOperator_eq_some_iff.1 hroot
        split at h
        next arity =>
          split at h
          next hzero =>
            obtain rfl := List.length_eq_zero_iff.1 hzero
            obtain ⟨x, hx, hf⟩ := Outline.interpret_unary.1 h
            exact .unary isRoot arity (ih hx) hf
          next => cases Outline.interpret_fault h
        next arity =>
          rw [List.take_left, List.drop_length_add_append] at h
          obtain ⟨x, y, hx, hy, hf⟩ := Outline.interpret_binary.1 h
          exact .binary isRoot arity (ih hx) (ih hy) hf
      next hroot =>
        obtain ⟨hbalanced, houter⟩ := rootOperator_eq_none_iff.1 hroot
        split at h
        next => cases Outline.interpret_fault h
        next inner hinner =>
          obtain rfl := Outline.eq_of_stripBrackets hlength hinner
          exact .brackets hbalanced houter (ih h)

theorem interpret_ofTokens_eq_ok_iff :
    ((Outline.ofTokens maxDepth levels tokens).interpret g).2 = .ok f ↔
      ReadsAs g levels tokens f :=
  ⟨readsAs_of_interpret, fun h => h.interpret_ofTokens maxDepth⟩

end Presence
