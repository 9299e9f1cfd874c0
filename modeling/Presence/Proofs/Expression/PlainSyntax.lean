import Presence.Expression.Dialect.Plain
import Presence.Expression.Parser
import Presence.Proofs.Expression.Outline

/-!
# The syntax of plain expressions

Plain expressions have a grammar of three levels, in which conjunctions and
disjunctions lean to the right (`Derives`).  Tokens are parsed as a formula
exactly if they derive it (`readTokens_eq_ok_iff`), although the parser looks for
the operator that binds loosest and knows no levels.

The two fit together because what derives on a level has no operator outside of
brackets that binds looser than the level does (`Derives.precedence_le`), and
because a derivation without the operator of a level is one of the level below.
-/

namespace Presence.Plain

/-- What a row of tokens can be. -/
inductive Category where
  /-- A disjunction, or less. -/
  | or
  /-- A conjunction, or less. -/
  | and
  /-- A negation, brackets or an identifier. -/
  | unary
  deriving DecidableEq, Repr

/-- The loosest precedence of an operator outside of brackets. -/
def Category.precedence : Category → Nat
  | or => Operator.or.precedence
  | and => Operator.and.precedence
  | unary => Operator.not.precedence

/-- The tokens derive the formula. -/
inductive Derives : Category → List Token → Formula → Prop where
  /-- A conjunction alone. -/
  | ofAnd {xs f} (only : Derives .and xs f) : Derives .or xs f
  /-- A conjunction before a disjunction. -/
  | or {xs ys f g} (left : Derives .and xs f) (right : Derives .or ys g) :
      Derives .or (xs ++ .operator .or :: ys) (.disjunction f g)
  /-- An operand alone. -/
  | ofUnary {xs f} (only : Derives .unary xs f) : Derives .and xs f
  /-- An operand before a conjunction. -/
  | and {xs ys f g} (left : Derives .unary xs f) (right : Derives .and ys g) :
      Derives .and (xs ++ .operator .and :: ys) (.conjunction f g)
  /-- The negation of an operand. -/
  | not {xs f} (operand : Derives .unary xs f) :
      Derives .unary (.operator .not :: xs) (.negation f)
  /-- Brackets around anything. -/
  | brackets {xs f} (inner : Derives .or xs f) :
      Derives .unary (.opening :: xs ++ [.closing]) f
  /-- The identifier of `true`. -/
  | one : Derives .unary [.identifier "1"] (.constant true)
  /-- The identifier of `false`. -/
  | zero : Derives .unary [.identifier "0"] (.constant false)
  /-- Any other identifier. -/
  | atom {text} (isSymbol : isSymbol text.toList = true) (notOne : text ≠ "1")
      (notZero : text ≠ "0") : Derives .unary [.identifier text] (.atom text)

namespace Derives

variable {category : Category} {tokens : List Token} {f : Formula}

theorem balanced (h : Derives category tokens f) : Balanced tokens := by
  induction h with
  | ofAnd _ ih => exact ih
  | or _ _ ihl ihr => exact ihl.append ihr
  | ofUnary _ ih => exact ih
  | and _ _ ihl ihr => exact ihl.append ihr
  | not _ ih => exact ih
  | brackets _ ih => exact ih.brackets
  | one => rfl
  | zero => rfl
  | atom _ _ _ => rfl

/-- Outside of brackets no operator binds looser than the category. -/
theorem precedence_le (h : Derives category tokens f) :
    ∀ o ∈ outerOperators 0 tokens, o.precedence ≤ category.precedence := by
  induction h with
  | ofAnd _ ih => exact fun o ho => Nat.le_succ_of_le (ih o ho)
  | or left right ihl ihr =>
      have isRoot : IsRoot _ .or _ :=
        ⟨left.balanced, right.balanced, fun o ho => Nat.lt_succ_of_le (ihl o ho), ihr⟩
      exact isRoot.precedence_le
  | ofUnary _ ih => exact fun o ho => Nat.le_succ_of_le (ih o ho)
  | and left right ihl ihr =>
      have isRoot : IsRoot _ .and _ :=
        ⟨left.balanced, right.balanced, fun o ho => Nat.lt_succ_of_le (ihl o ho), ihr⟩
      exact isRoot.precedence_le
  | not _ ih => exact List.forall_mem_cons.2 ⟨Nat.le_refl _, ih⟩
  | brackets inner _ =>
      rw [inner.balanced.outerOperators_brackets]
      exact List.forall_mem_nil _
  | one => exact List.forall_mem_nil _
  | zero => exact List.forall_mem_nil _
  | atom _ _ _ => exact List.forall_mem_nil _

/-- Between a tighter category and one that is not looser, an operator is the root. -/
theorem isRoot {category' : Category} {xs ys : List Token} {x y : Formula} {op : Operator}
    (left : Derives category xs x) (right : Derives category' ys y)
    (hleft : category.precedence < op.precedence)
    (hright : category'.precedence ≤ op.precedence) : IsRoot xs op ys where
  left := left.balanced
  right := right.balanced
  before := fun o ho => Nat.lt_of_le_of_lt (left.precedence_le o ho) hleft
  after := fun o ho => Nat.le_trans (right.precedence_le o ho) hright

/-- A disjunction without `||` outside of brackets is a conjunction. -/
theorem and_of_precedence_le (h : Derives .or tokens f)
    (hle : ∀ o ∈ outerOperators 0 tokens, o.precedence ≤ Operator.and.precedence) :
    Derives .and tokens f := by
  cases h with
  | ofAnd only => exact only
  | or left right =>
      rw [outerOperators_append left.balanced] at hle
      exact absurd (hle .or (List.mem_append_right _ List.mem_cons_self)) (by decide)

/-- A conjunction without `&&` outside of brackets is an operand. -/
theorem unary_of_precedence_le (h : Derives .and tokens f)
    (hle : ∀ o ∈ outerOperators 0 tokens, o.precedence ≤ Operator.not.precedence) :
    Derives .unary tokens f := by
  cases h with
  | ofUnary only => exact only
  | and left right =>
      rw [outerOperators_append left.balanced] at hle
      exact absurd (hle .and (List.mem_append_right _ List.mem_cons_self)) (by decide)

/-! ## Completeness -/

/-- Within more levels than there are tokens, what derives a formula reads as it. -/
theorem readsAs (h : Derives category tokens f) {levels : Nat} (hlevels : tokens.length < levels) :
    ReadsAs grammar levels tokens f := by
  induction h generalizing levels with
  | ofAnd _ ih => exact ih hlevels
  | ofUnary _ ih => exact ih hlevels
  | or left right ihl ihr =>
      obtain ⟨levels, rfl⟩ := Nat.exists_eq_succ_of_ne_zero (Nat.ne_zero_of_lt hlevels)
      rw [List.length_append, List.length_cons] at hlevels
      have isRoot : IsRoot _ .or _ := left.isRoot right (by decide) (Nat.le_refl _)
      exact .binary isRoot rfl (ihl (by omega)) (ihr (by omega)) rfl
  | and left right ihl ihr =>
      obtain ⟨levels, rfl⟩ := Nat.exists_eq_succ_of_ne_zero (Nat.ne_zero_of_lt hlevels)
      rw [List.length_append, List.length_cons] at hlevels
      have isRoot : IsRoot _ .and _ := left.isRoot right (by decide) (Nat.le_refl _)
      exact .binary isRoot rfl (ihl (by omega)) (ihr (by omega)) rfl
  | not operand ih =>
      obtain ⟨levels, rfl⟩ := Nat.exists_eq_succ_of_ne_zero (Nat.ne_zero_of_lt hlevels)
      have isRoot : IsRoot [] .not _ :=
        ⟨rfl, operand.balanced, List.forall_mem_nil _, operand.precedence_le⟩
      exact .unary isRoot rfl (ih (Nat.lt_of_succ_lt_succ hlevels)) rfl
  | brackets inner ih =>
      obtain ⟨levels, rfl⟩ := Nat.exists_eq_succ_of_ne_zero (Nat.ne_zero_of_lt hlevels)
      rw [List.length_append, List.length_cons] at hlevels
      exact .brackets inner.balanced.brackets inner.balanced.outerOperators_brackets
        (ih (by omega))
  | one | zero =>
      obtain ⟨levels, rfl⟩ := Nat.exists_eq_succ_of_ne_zero (Nat.ne_zero_of_lt hlevels)
      exact .identifier rfl
  | atom isSymbol notOne notZero =>
      obtain ⟨levels, rfl⟩ := Nat.exists_eq_succ_of_ne_zero (Nat.ne_zero_of_lt hlevels)
      refine .identifier ?_
      show identifier _ = _
      rw [identifier, if_neg notOne, if_neg notZero, if_pos isSymbol]

end Derives

/-! ## Soundness -/

/-- All operators are operators of plain expressions. -/
def HasPlainOperators (tokens : List Token) : Prop :=
  ∀ op, .operator op ∈ tokens → op = .not ∨ op = .and ∨ op = .or

variable {tokens : List Token} {f : Formula}

theorem derives_of_identifier {text : String} (h : identifier text = .ok f) :
    Derives .unary [.identifier text] f := by
  rw [identifier] at h
  split at h
  next hone =>
    cases h
    rw [hone]
    exact .one
  next hone =>
    split at h
    next hzero =>
      cases h
      rw [hzero]
      exact .zero
    next hzero =>
      split at h
      next hsymbol =>
        cases h
        exact .atom hsymbol hone hzero
      next => cases h

/-- What reads as a formula derives it. -/
theorem derives_of_readsAs {levels : Nat} (h : ReadsAs grammar levels tokens f)
    (hplain : HasPlainOperators tokens) : Derives .or tokens f := by
  induction h with
  | identifier meaning => exact .ofAnd (.ofUnary (derives_of_identifier meaning))
  | @unary levels op xs x f isRoot arity _ meaning ih =>
      have hx := ih fun o ho => hplain o (List.mem_cons_of_mem _ ho)
      rcases hplain op List.mem_cons_self with rfl | rfl | rfl
      · cases meaning
        have hle := isRoot.after
        have hand := hx.and_of_precedence_le fun o ho => Nat.le_succ_of_le (hle o ho)
        exact .ofAnd (.ofUnary (.not (hand.unary_of_precedence_le hle)))
      · cases arity
      · cases arity
  | @binary levels op xs ys x y f isRoot arity _ _ meaning ihl ihr =>
      have hx := ihl fun o ho => hplain o (List.mem_append_left _ ho)
      have hy := ihr fun o ho => hplain o (List.mem_append_right _ (List.mem_cons_of_mem _ ho))
      rcases hplain op (List.mem_append_right _ List.mem_cons_self) with rfl | rfl | rfl
      · cases arity
      · cases meaning
        have hle := fun o ho => Nat.le_of_lt_succ (isRoot.before o ho)
        have hand := hx.and_of_precedence_le fun o ho => Nat.le_succ_of_le (hle o ho)
        exact .ofAnd (.and (hand.unary_of_precedence_le hle)
          (hy.and_of_precedence_le isRoot.after))
      · cases meaning
        exact .or (hx.and_of_precedence_le fun o ho => Nat.le_of_lt_succ (isRoot.before o ho)) hy
  | brackets _ _ _ ih =>
      refine .ofAnd (.ofUnary (.brackets (ih fun o ho => hplain o ?_)))
      exact List.mem_append_left _ (List.mem_cons_of_mem _ ho)

/-- With as many levels as there are tokens, tokens are parsed as a formula
exactly if they derive it, and all other tokens are rejected. -/
theorem readTokens_eq_ok_iff {maxDepth : Nat} (hdepth : tokens.length ≤ maxDepth)
    (hplain : HasPlainOperators tokens) :
    (∀ f, (Parser.readTokens ⟨grammar, maxDepth⟩ tokens).2 = .ok f ↔ Derives .or tokens f) ∧
    ((∃ cause, (Parser.readTokens ⟨grammar, maxDepth⟩ tokens).2 = .error cause) ↔
      ¬∃ f, Derives .or tokens f) := by
  have hiff : ∀ f, (Parser.readTokens ⟨grammar, maxDepth⟩ tokens).2 = .ok f ↔
      Derives .or tokens f := by
    intro f
    rw [Parser.readTokens, interpret_ofTokens_eq_ok_iff]
    exact ⟨fun h => derives_of_readsAs h hplain, fun h => h.readsAs (Nat.lt_succ_of_le hdepth)⟩
  refine ⟨hiff, ?_⟩
  simp only [← hiff]
  cases (Parser.readTokens ⟨grammar, maxDepth⟩ tokens).2 with
  | error cause => simp
  | ok f => simp

/-- The tokens of `!A && (B || 1)`. -/
def tokensExample : List Token :=
  [.operator .not, .identifier "A", .operator .and, .opening, .identifier "B", .operator .or,
    .identifier "1", .closing]

theorem readTokens_eq_ok_iff_example :
    tokensExample.length ≤ 8 ∧ HasPlainOperators tokensExample ∧
      Derives .or tokensExample
        (.conjunction (.negation (.atom "A")) (.disjunction (.atom "B") (.constant true))) := by
  have hplain : HasPlainOperators tokensExample := by
    intro op hop
    simp only [tokensExample, List.mem_cons, Token.operator.injEq, reduceCtorEq, List.not_mem_nil,
      or_false, false_or] at hop
    exact hop
  have hlength : tokensExample.length ≤ 8 := Nat.le_refl _
  exact ⟨hlength, hplain, ((readTokens_eq_ok_iff hlength hplain).1 _).1 (by decide)⟩

end Presence.Plain
