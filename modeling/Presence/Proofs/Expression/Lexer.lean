import Presence.Expression.Dialect
import Presence.Expression.Lexer
import Mathlib.Data.List.Chain

/-!
# Tokens in the three dialects

The dialects read most texts alike.  A comparison needs an equals sign, a quote or a
square bracket, and a call needs a bracket right after a symbol.  A text without the
one reads the same as a tristate expression and as a plain one
(`Tristate.tokens_eq_plain`), and a text without the other reads the same as a test of
definedness and as a plain expression (`Definedness.tokens_eq_plain`).

Both follow place by place, since what a text reads as depends on the pieces at its
places only (`Grammar.tokens_congr`).
-/

namespace Presence

/-! ## Places -/

theorem Place.mem_listFrom {before text : List Char} {p : Place} (h : p ∈ listFrom before text) :
    p.before.reverse ++ p.here :: p.after = before.reverse ++ text := by
  induction text generalizing before with
  | nil => cases h
  | cons c rest ih =>
      rcases List.mem_cons.1 h with rfl | h
      · rfl
      · rw [ih h, List.reverse_cons, List.append_assoc, List.singleton_append]

/-- The characters around a place are those of the text. -/
theorem Place.mem_list {text : String} {p : Place} (h : p ∈ list text) :
    p.before.reverse ++ p.here :: p.after = text.toList :=
  mem_listFrom h

namespace Grammar

variable {g g' : Grammar}

/-- Two grammars that give a character the same classes find the same piece. -/
theorem piece?_congr {p : Place} (hop : g.operator? p = g'.operator? p)
    (hspace : g.isWhitespace p = g'.isWhitespace p) (hopening : g.isOpening p = g'.isOpening p)
    (hclosing : g.isClosing p = g'.isClosing p)
    (hchar : g'.operator? p = none → g.isIdentifierChar p = g'.isIdentifierChar p) :
    g.piece? p = g'.piece? p := by
  rw [piece?, piece?, hop]
  cases h : g'.operator? p with
  | some op => rfl
  | none => rw [hspace, hopening, hclosing, hchar h]

theorem piecesFrom_congr {before text : List Char}
    (h : ∀ p ∈ Place.listFrom before text, g.piece? p = g'.piece? p) (skip : Nat) :
    g.piecesFrom before skip text = g'.piecesFrom before skip text := by
  induction text generalizing before skip with
  | nil => simp only [piecesFrom]
  | cons c rest ih =>
      obtain ⟨hhere, hrest⟩ := List.forall_mem_cons.1 h
      cases skip with
      | succ skip => exact ih hrest skip
      | zero =>
          rw [piecesFrom, piecesFrom, hhere]
          cases g'.piece? ⟨before, c, rest⟩ with
          | none => rfl
          | some piece => exact congrArg (Except.map (piece :: ·)) (ih hrest piece.tail)

/-- Two grammars that find the same pieces in a text read the same tokens. -/
theorem tokens_congr {text : String} (h : ∀ p ∈ Place.list text, g.piece? p = g'.piece? p) :
    g.tokens text = g'.tokens text := by
  rw [tokens, tokens, piecesFrom_congr h]

end Grammar

/-! ## Tristate expressions -/

namespace Tristate

/-- The characters that tristate expressions read in another way than plain ones. -/
def ownChars : List Char := ['=', '"', '[', ']', '\r', '\n']

theorem insideComparison_eq_false {p : Place} (hbefore : '=' ∉ p.before) (hafter : '=' ∉ p.after) :
    insideComparison p = false := by
  have hprevious : p.before.find? (fun c => !isBlank c) ≠ some '=' :=
    fun h => hbefore (List.mem_of_find?_eq_some h)
  have hnext : '=' ∉ p.after.dropWhile isBlank :=
    fun h => hafter ((List.dropWhile_suffix _).subset h)
  rw [insideComparison, beq_eq_false_iff_ne.2 hprevious, Bool.false_or]
  split
  next heq => exact absurd (heq ▸ List.mem_cons_self) hnext
  next heq => exact absurd (heq ▸ List.mem_cons_of_mem _ List.mem_cons_self) hnext
  next => rfl

theorem operator?_eq {p : Place} (hafter : '=' ∉ p.after) : operator? p = p.operator? :=
  if_neg fun h => hafter (List.mem_of_mem_head? h.2)

theorem piece?_eq_plain {stem : String} {p : Place} (hbefore : '=' ∉ p.before)
    (hhere : p.here ∉ ownChars) (hafter : '=' ∉ p.after) :
    (grammar stem).piece? p = Plain.grammar.piece? p := by
  simp only [ownChars, List.mem_cons, List.not_mem_nil, or_false, not_or] at hhere
  obtain ⟨hequals, hquote, hleft, hright, hreturn, hfeed⟩ := hhere
  have hinside := insideComparison_eq_false hbefore hafter
  have hspace : Plain.isSpace p.here = isBlank p.here := by
    rw [Plain.isSpace, beq_eq_false_iff_ne.2 hreturn, beq_eq_false_iff_ne.2 hfeed, Bool.or_false,
      Bool.or_false, isBlank]
  refine Grammar.piece?_congr (operator?_eq hafter) ?_ rfl rfl fun hop => ?_
  · simp [grammar, Plain.grammar, hspace, hinside]
  -- An exclamation mark is an operator, so it is no part of an identifier.
  · have hmark : p.here ≠ '!' := by
      intro h
      have hnot : p.startsWith "!" = true := by simp [Place.startsWith, h]
      simp [Plain.grammar, Place.operator?, Operator.not, hnot] at hop
    simp [grammar, Plain.grammar, isComparisonChar, hinside, hequals, hquote, hleft, hright, hmark]

/-- Without comparisons a text reads as a plain expression. -/
theorem tokens_eq_plain {stem text : String} (h : ∀ c ∈ text.toList, c ∉ ownChars) :
    (grammar stem).tokens text = Plain.grammar.tokens text := by
  refine Grammar.tokens_congr fun p hp => ?_
  rw [← Place.mem_list hp] at h
  have hequals : ∀ c ∈ p.before.reverse ++ p.here :: p.after, c ≠ '=' := by
    rintro c hc rfl
    exact h _ hc List.mem_cons_self
  refine piece?_eq_plain (fun hmem => ?_) (h _ (by simp)) fun hmem => ?_
  · exact hequals _ (List.mem_append_left _ (List.mem_reverse.2 hmem)) rfl
  · exact hequals _ (List.mem_append_right _ (List.mem_cons_of_mem _ hmem)) rfl

end Tristate

/-! ## Tests of definedness -/

namespace Definedness

/-- No bracket opens right after a symbol. -/
def NoCall (text : List Char) : Prop := text.IsChain fun a b => isSymbolChar a = true → b ≠ '('

theorem opensCall_eq_false {before after : List Char} {here : Char}
    (h : NoCall (before.reverse ++ here :: after)) : opensCall ⟨before, here, after⟩ = false := by
  have hword : here = '(' → before.takeWhile isSymbolChar = [] := by
    rintro rfl
    cases before with
    | nil => rfl
    | cons c before =>
        rw [NoCall, List.reverse_cons, List.append_assoc, List.singleton_append] at h
        have hc : isSymbolChar c = true → '(' ≠ '(' := (List.isChain_append_cons_cons.1 h).2.1
        exact List.takeWhile_cons_of_neg fun hsymbol => hc hsymbol rfl
  by_cases hhere : here = '('
  · rw [opensCall, hword hhere]
    exact Bool.and_false _
  · rw [opensCall, beq_eq_false_iff_ne.2 hhere, Bool.false_and]

theorem closesCall_eq_false {before after : List Char} {here : Char}
    (h : NoCall (before.reverse ++ here :: after)) : closesCall ⟨before, here, after⟩ = false := by
  rw [closesCall]
  split
  next => exact Bool.and_false _
  next c rest heq =>
    have hbefore : before = before.takeWhile isSymbolChar ++ c :: rest := by
      rw [← heq, List.takeWhile_append_dropWhile]
    rw [hbefore, List.reverse_append, List.reverse_cons] at h
    rw [opensCall_eq_false (List.IsChain.left_of_append (List.IsChain.left_of_append h)),
      Bool.and_false]

/-- Only the brackets of calls are read in another way than in plain expressions. -/
theorem piece?_eq_plain {p : Place} (hopens : opensCall p = false)
    (hcloses : closesCall p = false) : grammar.piece? p = Plain.grammar.piece? p := by
  refine Grammar.piece?_congr rfl rfl ?_ ?_ fun _ => ?_ <;>
    simp [grammar, Plain.grammar, hopens, hcloses]

/-- Without calls a text reads as a plain expression. -/
theorem tokens_eq_plain {text : String} (h : NoCall text.toList) :
    grammar.tokens text = Plain.grammar.tokens text := by
  refine Grammar.tokens_congr fun p hp => ?_
  rw [← Place.mem_list hp] at h
  exact piece?_eq_plain (opensCall_eq_false h) (closesCall_eq_false h)

end Definedness

end Presence
