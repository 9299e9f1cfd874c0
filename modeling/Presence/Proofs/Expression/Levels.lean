import Presence.Expression.Dialect.Table
import Presence.Expression.Parser
import Presence.Proofs.Expression.CanonicalTokens
import Presence.Proofs.Expression.Outline

/-!
# How many levels a text needs

Whatever the grammar is, a row of tokens *settles* at some number of levels.  Within more levels
it always has the same result, be it a formula or a fault, and within fewer it is too deep
(`settles`).  No two of the levels are spent on the same token, and the last token is
read without one, so fewer levels than tokens are enough.

The induction is on the number of tokens.  A binary operator needs one level more than its
operands, unless the left operand settles with a fault.  The right operand is not read then, so
its levels do not count.
-/

namespace Presence

/-- Within more levels than needed the tokens have the result, and within fewer they are too
deep. -/
def SettlesAt (g : Grammar) (tokens : List Token) (result : Except ExpressionError Formula)
    (need : Nat) : Prop :=
  ∀ maxDepth levels, ((Outline.ofTokens maxDepth levels tokens).interpret g).2 =
    if need < levels then result else .error (.tooDeep maxDepth)

/-- The grammar itself says of an identifier or of operands that they are too deep. -/
def Grammar.ReportsDepth (g : Grammar) (limit : Nat) : Prop :=
  (∃ text, g.identifier text = .error (.tooDeep limit)) ∨
    (∃ op x, g.unary op x = .error (.tooDeep limit)) ∨
      ∃ op x y, g.binary op x y = .error (.tooDeep limit)

/-- That something is too deep is the result only if the grammar says so. -/
def Grammar.Allows (g : Grammar) (result : Except ExpressionError Formula) : Prop :=
  ∀ limit, result = .error (.tooDeep limit) → g.ReportsDepth limit

variable {g : Grammar} {op : Operator} {tokens xs ys : List Token} {x y f : Formula}
  {r s : Except ExpressionError Formula} {cause : ExpressionError} {n m : Nat}

/-! ## Levels of tokens -/

namespace SettlesAt

theorem identifier (g : Grammar) (text : String) :
    SettlesAt g [.identifier text] (g.identifier text) 0 := by
  intro maxDepth levels
  cases levels with
  | zero => rfl
  | succ levels =>
      rw [if_pos (Nat.succ_pos levels), Outline.ofTokens, Outline.interpret]
      cases g.identifier text with
      | error cause => rfl
      | ok f => rfl

/-- Tokens that form no tree need a single level. -/
theorem fault
    (h : ∀ maxDepth levels, Outline.ofTokens maxDepth (levels + 1) tokens = .fault cause) :
    SettlesAt g tokens (.error cause) 0 := by
  intro maxDepth levels
  cases levels with
  | zero => rfl
  | succ levels =>
      rw [if_pos (Nat.succ_pos levels), h]
      rfl

theorem unary (isRoot : IsRoot [] op xs) (arity : op.arity = .unary) (hxs : xs ≠ [])
    (h : SettlesAt g xs r n) :
    SettlesAt g (.operator op :: xs) (r >>= g.unary op) (n + 1) := by
  intro maxDepth levels
  cases levels with
  | zero => rfl
  | succ levels =>
      rw [Outline.ofTokens_unary isRoot arity hxs, Outline.snd_interpret_unary, h]
      by_cases hn : n < levels
      · rw [if_pos hn, if_pos (Nat.succ_lt_succ hn)]
      · rw [if_neg hn, if_neg (mt Nat.lt_of_succ_lt_succ hn)]
        rfl

theorem binary (isRoot : IsRoot xs op ys) (arity : op.arity = .binary)
    (hsides : xs ≠ [] ∨ ys ≠ []) (hx : SettlesAt g xs (.ok x) n) (hy : SettlesAt g ys r m) :
    SettlesAt g (xs ++ .operator op :: ys) (r >>= g.binary op x) (max n m + 1) := by
  intro maxDepth levels
  cases levels with
  | zero =>
      rw [if_neg (Nat.not_lt_zero _)]
      rfl
  | succ levels =>
      rw [Outline.ofTokens_binary isRoot arity hsides, Outline.snd_interpret_binary, hx, hy]
      by_cases hn : n < levels
      · by_cases hm : m < levels
        · rw [if_pos hn, if_pos hm, if_pos (by omega)]
          rfl
        · rw [if_pos hn, if_neg hm, if_neg (by omega)]
          rfl
      · have hmax : ¬max n m + 1 < levels + 1 := by omega
        rw [if_neg hn, if_neg hmax]
        rfl

/-- The right operand of a fault is not read. -/
theorem binary_error (isRoot : IsRoot xs op ys) (arity : op.arity = .binary)
    (hsides : xs ≠ [] ∨ ys ≠ []) (hx : SettlesAt g xs (.error cause) n) :
    SettlesAt g (xs ++ .operator op :: ys) (.error cause) (n + 1) := by
  intro maxDepth levels
  cases levels with
  | zero =>
      rw [if_neg (Nat.not_lt_zero _)]
      rfl
  | succ levels =>
      rw [Outline.ofTokens_binary isRoot arity hsides, Outline.snd_interpret_binary, hx]
      by_cases hn : n < levels
      · rw [if_pos hn, if_pos (Nat.succ_lt_succ hn)]
        rfl
      · rw [if_neg hn, if_neg (mt Nat.lt_of_succ_lt_succ hn)]
        rfl

theorem brackets (balanced : Balanced (.opening :: xs ++ [.closing]))
    (noRoot : outerOperators 0 (.opening :: xs ++ [.closing]) = []) (h : SettlesAt g xs r n) :
    SettlesAt g (.opening :: xs ++ [.closing]) r (n + 1) := by
  intro maxDepth levels
  cases levels with
  | zero => rfl
  | succ levels =>
      rw [Outline.ofTokens_brackets balanced noRoot, h]
      simp only [Nat.succ_lt_succ_iff]

end SettlesAt

/-! ## Whose fault it is -/

theorem rootOperator_ne_tooDeep (h : rootOperator tokens = .error cause) (limit : Nat) :
    cause ≠ .tooDeep limit := by
  rintro rfl
  rw [rootOperator_eq] at h
  split at h
  next => cases h
  next => cases h

theorem Outline.stripBrackets_ne_tooDeep (h : stripBrackets tokens = .error cause) (limit : Nat) :
    cause ≠ .tooDeep limit := by
  rintro rfl
  rw [stripBrackets] at h
  split at h <;> cases h

namespace Grammar.Allows

theorem error (g : Grammar) (h : ∀ limit, cause ≠ .tooDeep limit) : g.Allows (.error cause) := by
  intro limit hcause
  exact absurd (Except.error.inj hcause) (h limit)

theorem identifier (g : Grammar) (text : String) : g.Allows (g.identifier text) :=
  fun _ h => Or.inl ⟨text, h⟩

theorem unary (h : g.Allows r) (op : Operator) : g.Allows (r >>= g.unary op) := by
  intro limit hresult
  rcases bind_eq_error_iff.1 hresult with hr | ⟨x, _, hx⟩
  · exact h limit hr
  · exact Or.inr (Or.inl ⟨op, x, hx⟩)

theorem binary (h : g.Allows r) (op : Operator) (x : Formula) :
    g.Allows (r >>= g.binary op x) := by
  intro limit hresult
  rcases bind_eq_error_iff.1 hresult with hr | ⟨y, _, hy⟩
  · exact h limit hr
  · exact Or.inr (Or.inr ⟨op, x, y, hy⟩)

end Grammar.Allows

/-! ## Any tokens -/

/-- The tokens settle, and at fewer levels than there are tokens. -/
def Settles (g : Grammar) (tokens : List Token) : Prop :=
  ∃ result need, SettlesAt g tokens result need ∧ need ≤ tokens.length - 1 ∧ g.Allows result

namespace Settles

theorem identifier (g : Grammar) (text : String) : Settles g [.identifier text] :=
  ⟨_, 0, .identifier g text, Nat.zero_le _, .identifier g text⟩

theorem fault
    (h : ∀ maxDepth levels, Outline.ofTokens maxDepth (levels + 1) tokens = .fault cause)
    (hcause : ∀ limit, cause ≠ .tooDeep limit) : Settles g tokens :=
  ⟨_, 0, .fault h, Nat.zero_le _, .error g hcause⟩

theorem unary (isRoot : IsRoot [] op xs) (arity : op.arity = .unary) (hxs : xs ≠ [])
    (h : Settles g xs) : Settles g (.operator op :: xs) := by
  obtain ⟨r, n, hr, hn, hallows⟩ := h
  refine ⟨_, n + 1, hr.unary isRoot arity hxs, ?_, hallows.unary op⟩
  have := List.length_pos_of_ne_nil hxs
  rw [List.length_cons]
  omega

theorem binary (isRoot : IsRoot xs op ys) (arity : op.arity = .binary)
    (hsides : xs ≠ [] ∨ ys ≠ []) (hx : Settles g xs) (hy : Settles g ys) :
    Settles g (xs ++ .operator op :: ys) := by
  obtain ⟨r, n, hr, hn, hleft⟩ := hx
  obtain ⟨s, m, hs, hm, hright⟩ := hy
  have hlength : 0 < xs.length ∨ 0 < ys.length :=
    hsides.imp List.length_pos_of_ne_nil List.length_pos_of_ne_nil
  cases r with
  | error cause =>
      refine ⟨_, n + 1, hr.binary_error isRoot arity hsides, ?_, hleft⟩
      rw [List.length_append, List.length_cons]
      omega
  | ok x =>
      refine ⟨_, max n m + 1, hr.binary isRoot arity hsides hs, ?_, hright.binary op x⟩
      rw [List.length_append, List.length_cons]
      omega

theorem brackets (balanced : Balanced (.opening :: xs ++ [.closing]))
    (noRoot : outerOperators 0 (.opening :: xs ++ [.closing]) = []) (h : Settles g xs) :
    Settles g (.opening :: xs ++ [.closing]) := by
  obtain ⟨r, n, hr, hn, hallows⟩ := h
  refine ⟨r, n + 1, hr.brackets balanced noRoot, ?_, hallows⟩
  simp only [List.length_append, List.length_cons, List.length_nil]
  omega

/-- Less than two tokens are not split. -/
theorem of_length_lt_two (h : tokens.length < 2) : Settles g tokens := by
  rcases tokens with _ | ⟨first, _ | ⟨second, rest⟩⟩
  · exact fault (fun _ _ => rfl) nofun
  · cases first with
    | identifier text => exact identifier g text
    | opening | closing | operator op => exact fault (fun _ _ => rfl) nofun
  · exact absurd h (by simp)

/-- A unary operator has to come first. -/
theorem misplaced (hlength : 2 ≤ (xs ++ .operator op :: ys).length) (isRoot : IsRoot xs op ys)
    (arity : op.arity = .unary) (hxs : xs ≠ []) : Settles g (xs ++ .operator op :: ys) := by
  have hroot : rootOperator (xs ++ .operator op :: ys) = .ok (some (xs.length, op)) :=
    rootOperator_eq_some_iff.2 ⟨xs, ys, rfl, rfl, isRoot⟩
  have houtline : ∀ maxDepth levels,
      Outline.ofTokens maxDepth (levels + 1) (xs ++ .operator op :: ys) =
        .fault (.misplacedUnaryOperator op.symbol) := by
    intro maxDepth levels
    rw [Outline.ofTokens_succ hlength, hroot]
    simp [arity, hxs]
  exact fault houtline nofun

end Settles

/-- Any tokens settle. -/
theorem settles (g : Grammar) (tokens : List Token) : Settles g tokens := by
  induction hlength : tokens.length using Nat.strongRecOn generalizing tokens with
  | ind length ih =>
  subst hlength
  rcases Nat.lt_or_ge tokens.length 2 with hlength | hlength
  · exact .of_length_lt_two hlength
  cases hroot : rootOperator tokens with
  | error cause =>
      refine .fault (fun _ _ => ?_) (rootOperator_ne_tooDeep hroot)
      rw [Outline.ofTokens_succ hlength, hroot]
  | ok root =>
  cases root with
  | none =>
      obtain ⟨hbalanced, houter⟩ := rootOperator_eq_none_iff.1 hroot
      cases hstrip : Outline.stripBrackets tokens with
      | error cause =>
          refine .fault (fun _ _ => ?_) (Outline.stripBrackets_ne_tooDeep hstrip)
          rw [Outline.ofTokens_succ hlength, hroot]
          simp only [hstrip]
      | ok inner =>
          obtain rfl := Outline.eq_of_stripBrackets hlength hstrip
          have hshorter : inner.length < (Token.opening :: inner ++ [Token.closing]).length := by
            rw [List.length_append, List.length_cons]
            omega
          exact .brackets hbalanced houter (ih inner.length hshorter inner rfl)
  | some root =>
      obtain ⟨index, op⟩ := root
      obtain ⟨xs, ys, rfl, rfl, isRoot⟩ := rootOperator_eq_some_iff.1 hroot
      have hlengths := hlength
      rw [List.length_append, List.length_cons] at hlengths ih
      have hx := ih xs.length (by omega) xs rfl
      have hy := ih ys.length (by omega) ys rfl
      have hsides : xs ≠ [] ∨ ys ≠ [] := by
        rw [← List.length_pos_iff, ← List.length_pos_iff]
        omega
      cases arity : op.arity with
      | binary => exact hx.binary isRoot arity hsides hy
      | unary =>
          by_cases hxs : xs = []
          · subst hxs
            exact hy.unary isRoot arity (hsides.resolve_left fun h => h rfl)
          · exact .misplaced hlength isRoot arity hxs

/-! ## Grammars that report no depth -/

namespace Operator

theorem applyUnary_ne_tooDeep (op : Operator) (x : Formula) (limit : Nat) :
    op.applyUnary x ≠ .error (.tooDeep limit) := by
  rw [applyUnary]
  split <;> simp

theorem applyBinary_ne_tooDeep (op : Operator) (x y : Formula) (limit : Nat) :
    op.applyBinary x y ≠ .error (.tooDeep limit) := by
  rw [applyBinary]
  split
  · simp
  · split <;> simp

end Operator

/-- With the known operators only an identifier could be too deep. -/
theorem Grammar.not_reportsDepth (hunary : g.unary = Operator.applyUnary)
    (hbinary : g.binary = Operator.applyBinary)
    (hidentifier : ∀ text limit, g.identifier text ≠ .error (.tooDeep limit)) (limit : Nat) :
    ¬g.ReportsDepth limit := by
  rintro (⟨text, h⟩ | ⟨op, x, h⟩ | ⟨op, x, y, h⟩)
  · exact hidentifier text limit h
  · rw [hunary] at h
    exact op.applyUnary_ne_tooDeep x limit h
  · rw [hbinary] at h
    exact op.applyBinary_ne_tooDeep x y limit h

theorem GrammarTable.not_reportsDepth (t : GrammarTable) (limit : Nat) :
    ¬t.grammar.ReportsDepth limit := by
  refine Grammar.not_reportsDepth rfl rfl (fun text limit => ?_) limit
  simp [grammar]

theorem Plain.identifier_ne_tooDeep (text : String) (limit : Nat) :
    identifier text ≠ .error (.tooDeep limit) := by
  rw [identifier]
  split
  · simp
  · split
    · simp
    · split <;> simp

theorem Grammar.OfDialect.identifier_ne_tooDeep (hg : g.OfDialect) (text : String) (limit : Nat) :
    g.identifier text ≠ .error (.tooDeep limit) := by
  cases hg with
  | plain => exact Plain.identifier_ne_tooDeep text limit
  | tristate stem =>
      show Tristate.identifier stem text ≠ _
      rw [Tristate.identifier]
      split <;> simp
  | definedness =>
      show Definedness.identifier text ≠ _
      rw [Definedness.identifier]
      split
      · simp
      · exact Plain.identifier_ne_tooDeep text limit

theorem Grammar.OfDialect.not_reportsDepth (hg : g.OfDialect) (limit : Nat) :
    ¬g.ReportsDepth limit :=
  Grammar.not_reportsDepth hg.unary_eq hg.binary_eq hg.identifier_ne_tooDeep limit

/-! ## Texts -/

/-- Every text that has tokens needs a number of levels, at most one for each token but the last.
All parsers that allow these have the same result, and all others report that the text is too
deep.  That is never the result of the former, unless the grammar says so of an identifier or of
operands, which neither a dialect nor a grammar of a table does. -/
theorem Parser.parse_settles (g : Grammar) {text : String} (h : g.tokens text = .ok tokens) :
    ∃ need result, need ≤ tokens.length - 1 ∧
      (∀ maxDepth, need ≤ maxDepth → Parser.parse ⟨g, maxDepth⟩ text = result) ∧
      (∀ maxDepth, maxDepth < need →
        Parser.parse ⟨g, maxDepth⟩ text = .error (.tooDeep maxDepth)) ∧
      (∀ limit, result = .error (.tooDeep limit) → g.ReportsDepth limit) ∧
      (g.OfDialect ∨ (∃ t : GrammarTable, g = t.grammar) →
        ∀ limit, result ≠ .error (.tooDeep limit)) := by
  obtain ⟨result, need, hresult, hneed, hallows⟩ := settles g tokens
  have hparse : ∀ maxDepth, Parser.parse ⟨g, maxDepth⟩ text =
      if need < maxDepth + 1 then result else .error (.tooDeep maxDepth) := by
    intro maxDepth
    rw [Parser.parse, Parser.read, h]
    exact hresult maxDepth (maxDepth + 1)
  refine ⟨need, result, hneed, fun maxDepth hle => ?_, fun maxDepth hlt => ?_, hallows, ?_⟩
  · rw [hparse, if_pos (Nat.lt_succ_of_le hle)]
  · rw [hparse, if_neg (by omega)]
  · rintro (hg | ⟨t, rfl⟩) limit htooDeep
    · exact hg.not_reportsDepth limit (hallows limit htooDeep)
    · exact t.not_reportsDepth limit (hallows limit htooDeep)

/-- Set notation, with square brackets. -/
def tableExample : GrammarTable where
  operators := [⟨"~", .unary, 1⟩, ⟨"&", .binary, 2⟩]
  whitespace := [' ']
  opening := ['[']
  closing := [']']
  letters := none

theorem Parser.parse_settles_example :
    tableExample.grammar.tokens "~[a & b] & c" =
        .ok [.operator ⟨"~", .unary, 1⟩, .opening, .identifier "a", .operator ⟨"&", .binary, 2⟩,
          .identifier "b", .closing, .operator ⟨"&", .binary, 2⟩, .identifier "c"] ∧
      ∃ need ≤ 7, ∀ maxDepth ≥ need, ∀ limit,
        Parser.parse ⟨tableExample.grammar, maxDepth⟩ "~[a & b] & c" ≠ .error (.tooDeep limit) := by
  have htokens : tableExample.grammar.tokens "~[a & b] & c" =
      .ok [.operator ⟨"~", .unary, 1⟩, .opening, .identifier "a", .operator ⟨"&", .binary, 2⟩,
        .identifier "b", .closing, .operator ⟨"&", .binary, 2⟩, .identifier "c"] := by
    decide +kernel
  obtain ⟨need, result, hneed, habove, _, _, htooDeep⟩ := Parser.parse_settles _ htokens
  refine ⟨htokens, need, hneed, fun maxDepth hle limit => ?_⟩
  rw [habove maxDepth hle]
  exact htooDeep (Or.inr ⟨_, rfl⟩) limit

end Presence
