import Presence.Proofs.Expression.Atoms
import Presence.Proofs.Expression.Levels
import Presence.Proofs.Expression.PlainSyntax

/-!
# Canonical texts are read back

In every dialect a formula whose names are symbols is read back from its canonical text,
if the limit allows its nesting (`Grammar.OfDialect.parse_render_eq`).  A negation takes
one level of nesting and a conjunction or disjunction two, one of which goes to its
brackets (`Formula.nesting`).  Within fewer levels the text is refused as too deep, and
for no other reason.

The canonical text can be nested deeper than another text of the same formula, because
that one may leave out brackets.  So a parser may refuse the canonical text of what it
has accepted (`Plain.parse_render_same_limit_fails`).  Twice the limit is always enough
(`Plain.parse_render_of_parse`).
-/

namespace Presence

/-- The levels of nesting of the canonical text. -/
def Formula.nesting : Formula → Nat
  | constant _ | atom _ => 0
  | negation f => f.nesting + 1
  | conjunction l r | disjunction l r => max l.nesting r.nesting + 2

/-! ## Meaning of symbols -/

/-- Symbols, truth values and operators mean what canonical texts write by them. -/
structure Grammar.MeansFormulas (g : Grammar) : Prop where
  /-- The identifiers of the truth values. -/
  constant (b : Bool) : g.identifier (if b then "1" else "0") = .ok (.constant b)
  /-- Any other symbol. -/
  atom {name : String} (h : IsSymbolName name) : g.identifier name = .ok (.atom name)
  /-- The operator `!`. -/
  not (x : Formula) : g.unary .not x = .ok (.negation x)
  /-- The operator `&&`. -/
  and (x y : Formula) : g.binary .and x y = .ok (.conjunction x y)
  /-- The operator `||`. -/
  or (x y : Formula) : g.binary .or x y = .ok (.disjunction x y)

variable {name : String}

theorem Plain.identifier_of_isSymbolName (h : IsSymbolName name) :
    identifier name = .ok (.atom name) := by
  rw [identifier, if_neg h.2.1, if_neg h.2.2, if_pos h.1]

namespace Tristate

theorem identifier_of_isSymbolName {stem : String} (h : IsSymbolName name) :
    identifier stem name = .ok (.atom name) := by
  have hblank : name.toList.filter (fun c => !isBlank c) = name.toList := by
    refine List.filter_eq_self.2 fun c hc => ?_
    have hspace : c ≠ ' ' := fun hs => not_mem_of_isSymbol h.1 (by decide) (hs ▸ hc)
    have htab : c ≠ '\t' := fun hs => not_mem_of_isSymbol h.1 (by decide) (hs ▸ hc)
    simp [isBlank, hspace, htab]
  exact identifier_eq_ok_iff.2 ⟨.symbol name h, hblank.symm, rfl⟩

end Tristate

namespace Definedness

theorem argument?_eq_none {call : String} {text : List Char} (h : '(' ∉ text) :
    argument? call text = none := by
  have hprefix : (call.toList ++ ['(']).isPrefixOf text = false := by
    rw [Bool.eq_false_iff]
    intro hp
    exact h ((List.isPrefixOf_iff_prefix.1 hp).subset (by simp))
  rw [argument?, hprefix]
  rfl

theorem identifier_of_isSymbolName (h : IsSymbolName name) : identifier name = .ok (.atom name) := by
  have hbracket : '(' ∉ name.toList := fun hmem => absurd (h.isSymbolChar _ hmem) (by decide)
  have htested : tested? name.toList = none := by
    refine List.findSome?_eq_none_iff.2 fun call _ => ?_
    rw [argument?_eq_none hbracket]
    rfl
  rw [identifier, htested]
  exact Plain.identifier_of_isSymbolName h

end Definedness

theorem Grammar.OfDialect.meansFormulas {g : Grammar} (hg : g.OfDialect) : g.MeansFormulas := by
  cases hg with
  | plain =>
      exact ⟨fun b => by cases b <;> rfl, Plain.identifier_of_isSymbolName, fun _ => rfl,
        fun _ _ => rfl, fun _ _ => rfl⟩
  | tristate stem =>
      exact ⟨fun b => by cases b <;> rfl, Tristate.identifier_of_isSymbolName, fun _ => rfl,
        fun _ _ => rfl, fun _ _ => rfl⟩
  | definedness =>
      exact ⟨fun b => by cases b <;> rfl, Definedness.identifier_of_isSymbolName, fun _ => rfl,
        fun _ _ => rfl, fun _ _ => rfl⟩

/-! ## Levels of canonical tokens -/

/-- Within more levels than needed the tokens mean the formula, and within fewer they
are too deep. -/
def HasNesting (g : Grammar) (tokens : List Token) (f : Formula) (need : Nat) : Prop :=
  ∀ maxDepth levels, ((Outline.ofTokens maxDepth levels tokens).interpret g).2 =
    if need < levels then .ok f else .error (.tooDeep maxDepth)

namespace HasNesting

variable {g : Grammar} {op : Operator} {xs ys : List Token} {x y f : Formula} {n m : Nat}

theorem identifier {text : String} (h : g.identifier text = .ok f) :
    HasNesting g [.identifier text] f 0 := by
  have hsettles := SettlesAt.identifier g text
  rwa [h] at hsettles

theorem unary (isRoot : IsRoot [] op xs) (arity : op.arity = .unary) (hxs : xs ≠ [])
    (h : HasNesting g xs x n) (meaning : g.unary op x = .ok f) :
    HasNesting g (.operator op :: xs) f (n + 1) := by
  have hsettles : SettlesAt g (.operator op :: xs) (g.unary op x) (n + 1) :=
    SettlesAt.unary isRoot arity hxs h
  rwa [meaning] at hsettles

theorem binary (isRoot : IsRoot xs op ys) (arity : op.arity = .binary) (hxs : xs ≠ [])
    (hx : HasNesting g xs x n) (hy : HasNesting g ys y m) (meaning : g.binary op x y = .ok f) :
    HasNesting g (xs ++ .operator op :: ys) f (max n m + 1) := by
  have hsettles : SettlesAt g (xs ++ .operator op :: ys) (g.binary op x y) (max n m + 1) :=
    SettlesAt.binary isRoot arity (Or.inl hxs) hx hy
  rwa [meaning] at hsettles

theorem brackets (balanced : Balanced (.opening :: xs ++ [.closing]))
    (noRoot : outerOperators 0 (.opening :: xs ++ [.closing]) = []) (h : HasNesting g xs f n) :
    HasNesting g (.opening :: xs ++ [.closing]) f (n + 1) :=
  SettlesAt.brackets balanced noRoot h

end HasNesting

/-! ## Operands -/

/-- The tokens bind tighter than any `&&` or `||`, because outside of brackets there are
negations at most. -/
structure IsOperand (tokens : List Token) : Prop where
  /-- There are tokens. -/
  ne_nil : tokens ≠ []
  /-- All brackets pair up. -/
  balanced : Balanced tokens
  /-- Outside of brackets nothing binds looser than a negation. -/
  precedence_le : ∀ o ∈ outerOperators 0 tokens, o.precedence ≤ Operator.not.precedence

namespace IsOperand

variable {op : Operator} {xs ys : List Token}

theorem identifier (text : String) : IsOperand [.identifier text] :=
  ⟨List.cons_ne_nil _ _, rfl, List.forall_mem_nil _⟩

theorem not (h : IsOperand xs) : IsOperand (.operator .not :: xs) :=
  ⟨List.cons_ne_nil _ _, h.balanced, List.forall_mem_cons.2 ⟨Nat.le_refl _, h.precedence_le⟩⟩

theorem brackets (h : Balanced xs) : IsOperand (.opening :: xs ++ [.closing]) := by
  refine ⟨List.cons_ne_nil _ _, h.brackets, ?_⟩
  rw [h.outerOperators_brackets]
  exact List.forall_mem_nil _

theorem isRoot_not (h : IsOperand xs) : IsRoot [] .not xs :=
  ⟨rfl, h.balanced, List.forall_mem_nil _, h.precedence_le⟩

theorem isRoot (hx : IsOperand xs) (hy : IsOperand ys) (hop : op.IsJunctor) : IsRoot xs op ys := by
  have hloose : Operator.not.precedence < op.precedence := by rcases hop with rfl | rfl <;> decide
  exact ⟨hx.balanced, hy.balanced, fun o ho => Nat.lt_of_le_of_lt (hx.precedence_le o ho) hloose,
    fun o ho => Nat.le_trans (hy.precedence_le o ho) (Nat.le_of_lt hloose)⟩

theorem balanced_junctor (hx : IsOperand xs) (hy : IsOperand ys) (op : Operator) :
    Balanced (xs ++ .operator op :: ys) :=
  hx.balanced.append hy.balanced

theorem bracketedTokens (hx : IsOperand xs) (hy : IsOperand ys) (op : Operator) :
    IsOperand (bracketedTokens op xs ys) :=
  brackets (hx.balanced_junctor hy op)

end IsOperand

theorem Formula.isOperand_tokens (f : Formula) : IsOperand f.tokens := by
  induction f with
  | constant | atom => exact .identifier _
  | negation f ih => exact ih.not
  | conjunction l r ihl ihr => exact ihl.bracketedTokens ihr .and
  | disjunction l r ihl ihr => exact ihl.bracketedTokens ihr .or

section

variable {g : Grammar} {op : Operator} {xs ys : List Token} {x y f : Formula} {n m maxDepth : Nat}

namespace HasNesting

/-- Brackets around anything take one level. -/
theorem ofBalanced (hxs : Balanced xs) (h : HasNesting g xs f n) :
    HasNesting g (.opening :: xs ++ [.closing]) f (n + 1) :=
  h.brackets hxs.brackets hxs.outerOperators_brackets

/-- The negation of an operand takes one level. -/
theorem not (hxs : IsOperand xs) (h : HasNesting g xs x n) (meaning : g.unary .not x = .ok f) :
    HasNesting g (.operator .not :: xs) f (n + 1) :=
  h.unary hxs.isRoot_not rfl hxs.ne_nil meaning

/-- An operator between two operands takes two levels, one of them for its brackets. -/
theorem bracketedTokens (hop : op.IsJunctor) (hxs : IsOperand xs) (hys : IsOperand ys)
    (hx : HasNesting g xs x n) (hy : HasNesting g ys y m) (meaning : g.binary op x y = .ok f) :
    HasNesting g (bracketedTokens op xs ys) f (max n m + 2) := by
  have arity : op.arity = .binary := by rcases hop with rfl | rfl <;> rfl
  exact .ofBalanced (hxs.balanced_junctor hys op)
    (.binary (hxs.isRoot hys hop) arity hxs.ne_nil hx hy meaning)

end HasNesting

/-- The tokens of a canonical text need as many levels as the formula is nested. -/
theorem hasNesting_tokens (hg : g.MeansFormulas) (hf : f.HasSymbolNames) :
    HasNesting g f.tokens f f.nesting := by
  induction f with
  | constant b => exact .identifier (hg.constant b)
  | atom name => exact .identifier (hg.atom (Formula.hasSymbolNames_atom.1 hf))
  | negation f ih => exact (ih hf).not f.isOperand_tokens (hg.not f)
  | conjunction l r ihl ihr =>
      obtain ⟨hl, hr⟩ := Formula.hasSymbolNames_conjunction.1 hf
      exact .bracketedTokens (Or.inl rfl) l.isOperand_tokens r.isOperand_tokens (ihl hl) (ihr hr)
        (hg.and l r)
  | disjunction l r ihl ihr =>
      obtain ⟨hl, hr⟩ := Formula.hasSymbolNames_disjunction.1 hf
      exact .bracketedTokens (Or.inr rfl) l.isOperand_tokens r.isOperand_tokens (ihl hl) (ihr hr)
        (hg.or l r)

/-! ## Reading back -/

namespace Grammar.OfDialect

theorem parse_render (hg : g.OfDialect) (hf : f.HasSymbolNames) (h : f.nesting ≤ maxDepth) :
    Parser.parse ⟨g, maxDepth⟩ f.render = .ok f := by
  rw [Parser.parse, Parser.read, hg.tokens_render hf]
  refine (hasNesting_tokens hg.meansFormulas hf maxDepth (maxDepth + 1)).trans ?_
  rw [if_pos (Nat.lt_succ_of_le h)]

theorem parse_render_tooDeep (hg : g.OfDialect) (hf : f.HasSymbolNames)
    (h : maxDepth < f.nesting) : Parser.parse ⟨g, maxDepth⟩ f.render = .error (.tooDeep maxDepth) := by
  rw [Parser.parse, Parser.read, hg.tokens_render hf]
  refine (hasNesting_tokens hg.meansFormulas hf maxDepth (maxDepth + 1)).trans ?_
  rw [if_neg (Nat.not_lt_of_le h)]

/-- A canonical text is read back if the limit allows its nesting, and is too deep otherwise. -/
theorem parse_render_eq (hg : g.OfDialect) (hf : f.HasSymbolNames) (maxDepth : Nat) :
    Parser.parse ⟨g, maxDepth⟩ f.render =
      if f.nesting ≤ maxDepth then .ok f else .error (.tooDeep maxDepth) := by
  split
  next h => exact hg.parse_render hf h
  next h => exact hg.parse_render_tooDeep hf (Nat.lt_of_not_le h)

/-- The formula of `(!A && (B || 1))`. -/
def nestedExample : Formula :=
  .conjunction (.negation (.atom "A")) (.disjunction (.atom "B") (.constant true))

theorem parse_render_eq_example :
    (Tristate.grammar "ENABLE_").OfDialect ∧ nestedExample.HasSymbolNames ∧
      Parser.parse ⟨Tristate.grammar "ENABLE_", 4⟩ "(!A && (B || 1))" = .ok nestedExample ∧
      Parser.parse ⟨Tristate.grammar "ENABLE_", 3⟩ "(!A && (B || 1))" = .error (.tooDeep 3) := by
  have hg : (Tristate.grammar "ENABLE_").OfDialect := .tristate "ENABLE_"
  have hf : nestedExample.HasSymbolNames := by decide
  exact ⟨hg, hf, hg.parse_render_eq hf 4, hg.parse_render_eq hf 3⟩

end Grammar.OfDialect

end

/-! ## Texts that were parsed -/

variable {op : Operator} {x y f : Formula}

theorem Parser.exists_readsAs_of_parse {p : Parser} {text : String} (h : p.parse text = .ok f) :
    ∃ tokens, p.grammar.tokens text = .ok tokens ∧ ReadsAs p.grammar (p.maxDepth + 1) tokens f := by
  rw [parse, read] at h
  split at h
  next => cases h
  next tokens htokens => exact ⟨tokens, htokens, readsAs_of_interpret h⟩

theorem Operator.eq_of_applyUnary (h : op.applyUnary x = .ok f) : f = .negation x := by
  rw [applyUnary] at h
  split at h
  next => exact (Except.ok.inj h).symm
  next => cases h

theorem Operator.eq_of_applyBinary (h : op.applyBinary x y = .ok f) :
    f = .conjunction x y ∨ f = .disjunction x y := by
  rw [applyBinary] at h
  split at h
  next => exact Or.inl (Except.ok.inj h).symm
  next =>
    split at h
    next => exact Or.inr (Except.ok.inj h).symm
    next => cases h

namespace ReadsAs

variable {g : Grammar} {levels : Nat} {tokens : List Token} {name : String}

/-- Every identifier of what was read has a meaning. -/
theorem exists_identifier (h : ReadsAs g levels tokens f) :
    ∀ text, Token.identifier text ∈ tokens → ∃ x, g.identifier text = .ok x := by
  induction h with
  | identifier meaning =>
      intro text htext
      obtain ⟨rfl⟩ := Token.identifier.inj (List.mem_singleton.1 htext)
      exact ⟨_, meaning⟩
  | unary isRoot arity operand meaning ih =>
      intro text htext
      exact ih text ((List.mem_cons.1 htext).resolve_left nofun)
  | binary isRoot arity left right meaning ihl ihr =>
      intro text htext
      rcases List.mem_append.1 htext with htext | htext
      · exact ihl text htext
      · exact ihr text ((List.mem_cons.1 htext).resolve_left nofun)
  | brackets balanced noRoot inner ih =>
      intro text htext
      rcases List.mem_append.1 htext with htext | htext
      · exact ih text ((List.mem_cons.1 htext).resolve_left nofun)
      · cases List.mem_singleton.1 htext

/-- The names of the formula are those of its identifiers. -/
theorem mem_atoms_iff (h : ReadsAs g levels tokens f) (hg : g.OfDialect) :
    name ∈ f.atoms ↔
      ∃ text x, Token.identifier text ∈ tokens ∧ g.identifier text = .ok x ∧ name ∈ x.atoms := by
  induction h with
  | identifier meaning => simp [meaning]
  | unary isRoot arity operand meaning ih =>
      rw [hg.unary_eq] at meaning
      obtain rfl := Operator.eq_of_applyUnary meaning
      simpa [Formula.atoms] using ih
  | binary isRoot arity left right meaning ihl ihr =>
      rw [hg.binary_eq] at meaning
      rcases Operator.eq_of_applyBinary meaning with rfl | rfl
      · simp [Formula.atoms, ihl, ihr, or_and_right, exists_or]
      · simp [Formula.atoms, ihl, ihr, or_and_right, exists_or]
  | brackets balanced noRoot inner ih => simpa using ih

/-- If an operator adds at most `step` to a measure of formulas, then so does each level that was
used, beside what the identifiers measure. -/
theorem measure_add_le (h : ReadsAs g levels tokens f) (hg : g.OfDialect) (measure : Formula → Nat)
    (step size : Nat) (hnot : ∀ x, measure (.negation x) ≤ measure x + step)
    (hand : ∀ x y, measure (.conjunction x y) ≤ max (measure x) (measure y) + step)
    (hor : ∀ x y, measure (.disjunction x y) ≤ max (measure x) (measure y) + step)
    (hsize : ∀ text, Token.identifier text ∈ tokens → ∀ x, g.identifier text = .ok x →
      measure x ≤ size) : measure f + step ≤ step * levels + size := by
  induction h with
  | identifier meaning =>
      have := hsize _ List.mem_cons_self _ meaning
      rw [Nat.mul_succ]
      omega
  | @unary levels op xs x f isRoot arity operand meaning ih =>
      rw [hg.unary_eq] at meaning
      obtain rfl := Operator.eq_of_applyUnary meaning
      have := hnot x
      have := ih fun text htext => hsize text (List.mem_cons_of_mem _ htext)
      rw [Nat.mul_succ]
      omega
  | @binary levels op xs ys x y f isRoot arity left right meaning ihl ihr =>
      have hf : measure f ≤ max (measure x) (measure y) + step := by
        rw [hg.binary_eq] at meaning
        rcases Operator.eq_of_applyBinary meaning with rfl | rfl
        · exact hand x y
        · exact hor x y
      have := ihl fun text htext => hsize text (List.mem_append_left _ htext)
      have := ihr fun text htext =>
        hsize text (List.mem_append_right _ (List.mem_cons_of_mem _ htext))
      rw [Nat.mul_succ]
      omega
  | brackets balanced noRoot inner ih =>
      have := ih fun text htext =>
        hsize text (List.mem_cons_of_mem _ (List.mem_append_left _ htext))
      rw [Nat.mul_succ]
      omega

/-- With identifiers of a bounded nesting, each level that was used gives rise to at most two
in the canonical text, beside those of an identifier. -/
theorem nesting_add_two_le (h : ReadsAs g levels tokens f) (hg : g.OfDialect) (size : Nat)
    (hsize : ∀ text, Token.identifier text ∈ tokens → ∀ x, g.identifier text = .ok x →
      x.nesting ≤ size) : f.nesting + 2 ≤ 2 * levels + size :=
  h.measure_add_le hg Formula.nesting 2 size (fun _ => Nat.le_succ _) (fun _ _ => Nat.le_refl _)
    (fun _ _ => Nat.le_refl _) hsize

end ReadsAs

namespace Plain

variable {levels maxDepth : Nat} {tokens : List Token} {text : String}

/-- An identifier is a truth value or any other symbol. -/
theorem cases_of_identifier (h : identifier text = .ok f) :
    (∃ b, text = (if b then "1" else "0") ∧ f = .constant b) ∨
      IsSymbolName text ∧ f = .atom text := by
  rw [identifier] at h
  split at h
  next hone =>
    cases h
    exact Or.inl ⟨true, hone, rfl⟩
  next hone =>
    split at h
    next hzero =>
      cases h
      exact Or.inl ⟨false, hzero, rfl⟩
    next hzero =>
      split at h
      next hsymbol =>
        cases h
        exact Or.inr ⟨⟨hsymbol, hone, hzero⟩, rfl⟩
      next => cases h

/-- An identifier means a leaf whose name is a symbol. -/
theorem leaf_of_identifier (h : identifier text = .ok f) : f.HasSymbolNames ∧ f.nesting = 0 := by
  rcases cases_of_identifier h with ⟨b, -, rfl⟩ | ⟨hname, rfl⟩
  · exact ⟨List.forall_mem_nil _, rfl⟩
  · exact ⟨Formula.hasSymbolNames_atom.2 hname, rfl⟩

/-- What was read has symbols for names only. -/
theorem hasSymbolNames_of_readsAs (h : ReadsAs grammar levels tokens f) : f.HasSymbolNames := by
  intro name hname
  obtain ⟨text, x, _, meaning, hx⟩ := (h.mem_atoms_iff .plain).1 hname
  exact (leaf_of_identifier meaning).1 name hx

/-- Each level that was used gives rise to at most two in the canonical text. -/
theorem nesting_add_two_le (h : ReadsAs grammar levels tokens f) : f.nesting + 2 ≤ 2 * levels :=
  h.nesting_add_two_le .plain 0 fun _ _ _ meaning => Nat.le_of_eq (leaf_of_identifier meaning).2

theorem readsAs_of_parse (h : Parser.parse ⟨grammar, maxDepth⟩ text = .ok f) :
    ∃ tokens, ReadsAs grammar (maxDepth + 1) tokens f := by
  obtain ⟨tokens, _, hreads⟩ := Parser.exists_readsAs_of_parse h
  exact ⟨tokens, hreads⟩

/-- The canonical text of what was parsed is read back if the limit allows its nesting,
and is too deep otherwise.  Within twice the limit it is always read back. -/
theorem parse_render_of_parse (h : Parser.parse ⟨grammar, maxDepth⟩ text = .ok f) :
    (f.nesting ≤ maxDepth → Parser.parse ⟨grammar, maxDepth⟩ f.render = .ok f) ∧
      (maxDepth < f.nesting →
        Parser.parse ⟨grammar, maxDepth⟩ f.render = .error (.tooDeep maxDepth)) ∧
      ∀ limit, 2 * maxDepth ≤ limit → Parser.parse ⟨grammar, limit⟩ f.render = .ok f := by
  obtain ⟨tokens, hreads⟩ := readsAs_of_parse h
  have hf := hasSymbolNames_of_readsAs hreads
  have hnesting := nesting_add_two_le hreads
  refine ⟨Grammar.OfDialect.plain.parse_render hf, Grammar.OfDialect.plain.parse_render_tooDeep hf,
    fun limit hlimit => Grammar.OfDialect.plain.parse_render hf ?_⟩
  omega

theorem parse_render_of_parse_example :
    Parser.parse ⟨grammar, 2⟩ "A && B || !C" =
        .ok (.disjunction (.conjunction (.atom "A") (.atom "B")) (.negation (.atom "C"))) ∧
      Parser.parse ⟨grammar, 2⟩ "((A && B) || !C)" = .error (.tooDeep 2) ∧
      Parser.parse ⟨grammar, 4⟩ "((A && B) || !C)" =
        .ok (.disjunction (.conjunction (.atom "A") (.atom "B")) (.negation (.atom "C"))) := by
  have h : Parser.parse ⟨grammar, 2⟩ "A && B || !C" =
      .ok (.disjunction (.conjunction (.atom "A") (.atom "B")) (.negation (.atom "C"))) := by rfl
  obtain ⟨_, hdeep, htwice⟩ := parse_render_of_parse h
  exact ⟨h, hdeep (by decide), htwice 4 (by decide)⟩

/-- A limit that allows a text need not allow the canonical text of its formula. -/
theorem parse_render_same_limit_fails :
    ¬∀ (maxDepth : Nat) (text : String) (f : Formula),
      Parser.parse ⟨grammar, maxDepth⟩ text = .ok f →
        Parser.parse ⟨grammar, maxDepth⟩ f.render = .ok f := by
  intro h
  have haccepted : Parser.parse ⟨grammar, 1⟩ "A && B" =
      .ok (.conjunction (.atom "A") (.atom "B")) := by rfl
  have hrefused : Parser.parse ⟨grammar, 1⟩ (Formula.conjunction (.atom "A") (.atom "B")).render =
      .error (.tooDeep 1) := by rfl
  have hagain := h 1 "A && B" _ haccepted
  rw [hrefused] at hagain
  cases hagain

end Plain

end Presence
