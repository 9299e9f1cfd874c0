import Presence.Proofs.Expression.CanonicalText
import Presence.Proofs.Expression.Lexemes
import Presence.Proofs.Expression.Pieces

/-!
# Layouts of tristate expressions

A condition is written with brackets around every conjunction and disjunction, and around
anything else if one likes (`Tristate.Condition`).  Blanks may stand before and after every
token (`Tristate.IsLayout`) and on both sides of the operator of a comparison
(`Tristate.Atom.IsWrittenAs`).  Whatever the layout, the text is parsed as the formula that
the condition means, if the limit allows its nesting (`Tristate.parse_layout_eq`).

The lexer needs no brackets for this: it reads back every row of tokens in which no two
identifiers stand side by side (`Tristate.lexes_of_isLayout`).  A blank between two tokens is
never inside of a comparison.  The token on its left does not end with an equals sign, and
the one on its right does not begin with the operator of a comparison.
-/

namespace Presence

namespace Tristate

/-! ## Blanks -/

/-- There are only blanks. -/
def IsGap (text : List Char) : Prop := ∀ c ∈ text, isBlank c = true

instance (text : List Char) : Decidable (IsGap text) :=
  List.decidableBAll _ text

namespace IsGap

variable {gap before after : List Char}

theorem filter_eq_nil (h : IsGap gap) : gap.filter (fun c => !isBlank c) = [] := by
  refine List.filter_eq_nil_iff.2 fun c hc => ?_
  rw [h c hc]
  exact Bool.false_ne_true

theorem beginsMark_append (h : IsGap gap) : BeginsMark (gap ++ after) ↔ BeginsMark after := by
  induction gap with
  | nil => exact Iff.rfl
  | cons c gap ih =>
      obtain ⟨hc, hgap⟩ := List.forall_mem_cons.1 h
      exact (beginsMark_blank hc).trans (ih hgap)

variable {stem : String}

/-- In front of the operator of a comparison blanks are letters. -/
theorem allLetters_of_beginsMark (h : IsGap gap) (hafter : BeginsMark after) :
    (grammar stem).AllLetters before after gap := by
  induction gap generalizing before with
  | nil => trivial
  | cons c gap ih =>
      obtain ⟨hc, hgap⟩ := List.forall_mem_cons.1 h
      have hnext : BeginsMark (gap ++ after) := (beginsMark_append hgap).2 hafter
      exact ⟨piece?_blank stem hc (insideComparison_iff.2 (Or.inr hnext)), ih hgap⟩

/-- Behind an equals sign blanks are letters. -/
theorem allLetters_of_nearest? (h : IsGap gap) (hbefore : nearest? before = some '=') :
    (grammar stem).AllLetters before after gap := by
  induction gap generalizing before with
  | nil => trivial
  | cons c gap ih =>
      obtain ⟨hc, hgap⟩ := List.forall_mem_cons.1 h
      refine ⟨piece?_blank stem hc (insideComparison_iff.2 (Or.inl hbefore)), ih hgap ?_⟩
      exact (nearest?_blank hc).trans hbefore

/-- Anywhere else blanks are skipped. -/
theorem lexes_append (h : IsGap gap) (hbefore : nearest? before ≠ some '=')
    (hafter : ¬BeginsMark after) {tokens : List Token}
    (hlexes : (grammar stem).Lexes (gap.reverse ++ before) after tokens) :
    (grammar stem).Lexes before (gap ++ after) tokens := by
  induction gap generalizing before with
  | nil => exact hlexes
  | cons c gap ih =>
      obtain ⟨hc, hgap⟩ := List.forall_mem_cons.1 h
      have hnext : ¬BeginsMark (gap ++ after) := fun hn => hafter ((beginsMark_append hgap).1 hn)
      rw [List.reverse_cons, List.append_assoc, List.singleton_append] at hlexes
      have hnearest : nearest? (c :: before) ≠ some '=' := by rwa [nearest?_blank hc]
      exact .piece (piece?_gap stem hc hbefore hnext) nofun (ih hgap hnearest hlexes)

end IsGap

/-! ## Writing an atom -/

/-- The text is a way to write the atom.  A comparison may have blanks on both sides of its
operator. -/
def Atom.IsWrittenAs (text : List Char) : Atom → Prop
  | comparison name _ equal value => ∃ gap gap', IsGap gap ∧ IsGap gap' ∧
      text = name.toList ++ (gap ++ (mark equal ++ (gap' ++ value.text)))
  | a => text = a.text

variable {stem : String} {text before after : List Char}

theorem allLetters_of_plain (h : ∀ c ∈ text, IsPlainLetter c) :
    (grammar stem).AllLetters before after text := by
  induction text generalizing before with
  | nil => trivial
  | cons c text ih =>
      obtain ⟨hc, htext⟩ := List.forall_mem_cons.1 h
      exact ⟨piece?_letter stem hc, ih htext⟩

theorem allLetters_mark (equal : Bool) : (grammar stem).AllLetters before after (mark equal) := by
  have hequals : IsPlainLetter '=' := Or.inr List.mem_cons_self
  cases equal with
  | true => exact ⟨piece?_letter stem hequals, piece?_letter stem hequals, trivial⟩
  | false => exact ⟨piece?_mark stem rfl, piece?_letter stem hequals, trivial⟩

theorem beginsMark_mark (equal : Bool) : BeginsMark (mark equal ++ after) := by
  cases equal with
  | true => exact (beginsMark_cons rfl).2 (Or.inl rfl)
  | false => exact (beginsMark_cons rfl).2 (Or.inr ⟨rfl, rfl⟩)

theorem nearest?_mark (equal : Bool) : nearest? ((mark equal).reverse ++ before) = some '=' := by
  cases equal <;> rfl

theorem Value.isPlainLetter (value : Value) : ∀ c ∈ value.text, IsPlainLetter c :=
  isPlainLetter_of_all (by cases value <;> decide)

namespace Atom

variable {a : Atom}

theorem getLast?_text (a : Atom) : ∃ c, a.text.getLast? = some c ∧ c ≠ '=' := by
  cases a with
  | symbol name valid =>
      refine ⟨_, List.getLast?_eq_some_getLast valid.toList_ne_nil, fun heq => ?_⟩
      exact not_mem_of_isSymbol valid.1 (by decide) (heq ▸ List.getLast_mem valid.toList_ne_nil)
  | constant b => cases b <;> exact ⟨_, rfl, by decide⟩
  | truth => exact ⟨']', rfl, by decide⟩
  | comparison name valid equal value =>
      have hvalue : value.text.getLast? = some '"' := by cases value <;> rfl
      refine ⟨'"', ?_, by decide⟩
      rw [text_comparison, List.getLast?_append, List.getLast?_append, hvalue]
      rfl

namespace IsWrittenAs

/-- A way to write an atom is its text, all of it letters, or a comparison with blanks. -/
theorem cases_text (h : a.IsWrittenAs text) :
    (text = a.text ∧ ∀ c ∈ text, IsPlainLetter c) ∨
      ∃ name valid equal value gap gap', a = comparison name valid equal value ∧ IsGap gap ∧
        IsGap gap' ∧ text = name.toList ++ (gap ++ (mark equal ++ (gap' ++ value.text))) := by
  cases a with
  | symbol name valid =>
      obtain rfl : text = name.toList := h
      exact Or.inl ⟨rfl, isPlainLetter_of_isSymbol valid.1⟩
  | constant b =>
      obtain rfl : text = [if b then '1' else '0'] := h
      exact Or.inl ⟨rfl, isPlainLetter_of_all (by cases b <;> decide)⟩
  | truth =>
      obtain rfl : text = "[TRUE]".toList := h
      exact Or.inl ⟨rfl, isPlainLetter_of_all (by decide)⟩
  | comparison name valid equal value =>
      obtain ⟨gap, gap', hgap, hgap', htext⟩ := h
      exact Or.inr ⟨name, valid, equal, value, gap, gap', rfl, hgap, hgap', htext⟩

/-- However an atom is written, its characters are letters. -/
theorem allLetters (h : a.IsWrittenAs text) : (grammar stem).AllLetters before after text := by
  rcases h.cases_text with ⟨-, hplain⟩ | ⟨name, valid, equal, value, gap, gap', -, hgap, hgap', rfl⟩
  · exact allLetters_of_plain hplain
  · simp only [Grammar.allLetters_append]
    refine ⟨allLetters_of_plain (isPlainLetter_of_isSymbol valid),
      hgap.allLetters_of_beginsMark ?_, allLetters_mark equal,
      hgap'.allLetters_of_nearest? (nearest?_mark equal), allLetters_of_plain value.isPlainLetter⟩
    rw [List.append_assoc]
    exact beginsMark_mark equal

/-- Without its blanks the text is the one of the atom. -/
theorem filter_eq (h : a.IsWrittenAs text) : text.filter (fun c => !isBlank c) = a.text := by
  have hself : ∀ {text : List Char}, (∀ c ∈ text, IsPlainLetter c) →
      text.filter (fun c => !isBlank c) = text := fun hplain =>
    List.filter_eq_self.2 fun c hc => by rw [isBlank_eq_false (hplain c hc), Bool.not_false]
  rcases h.cases_text with ⟨rfl, hplain⟩ |
    ⟨name, valid, equal, value, gap, gap', rfl, hgap, hgap', rfl⟩
  · exact hself hplain
  · have hname := hself (isPlainLetter_of_isSymbol valid)
    have hmark : (mark equal).filter (fun c => !isBlank c) = mark equal := by cases equal <;> rfl
    simp only [List.filter_append, hname, hgap.filter_eq_nil, hmark, hgap'.filter_eq_nil,
      hself value.isPlainLetter, List.nil_append, text_comparison]

/-- However an atom is written, it has its meaning. -/
theorem identifier {text : String} (h : a.IsWrittenAs text.toList) :
    identifier stem text = .ok (a.meaning stem) :=
  identifier_eq_ok_iff.2 ⟨a, h.filter_eq.symm, rfl⟩

theorem exists_eq_cons (h : a.IsWrittenAs text) :
    ∃ c rest, text = c :: rest ∧ (isSymbolChar c = true ∨ c = '[') := by
  have hsymbol : ∀ {name : List Char}, isSymbol name = true → ∀ more,
      ∃ c rest, name ++ more = c :: rest ∧ (isSymbolChar c = true ∨ c = '[') := by
    intro name hname more
    obtain ⟨c, rest, rfl⟩ := List.exists_cons_of_ne_nil (ne_nil_of_isSymbol hname)
    exact ⟨c, rest ++ more, rfl, Or.inl (isSymbolChar_of_isSymbol hname c List.mem_cons_self)⟩
  cases a with
  | symbol name valid =>
      obtain rfl : text = name.toList := h
      simpa using hsymbol valid.1 []
  | constant b =>
      obtain rfl : text = [if b then '1' else '0'] := h
      exact ⟨_, [], rfl, Or.inl (by cases b <;> rfl)⟩
  | truth =>
      obtain rfl : text = "[TRUE]".toList := h
      exact ⟨'[', "TRUE]".toList, rfl, Or.inr rfl⟩
  | comparison name valid equal value =>
      obtain ⟨gap, gap', -, -, rfl⟩ := h
      exact hsymbol valid _

theorem ne_nil (h : a.IsWrittenAs text) : text ≠ [] := by
  obtain ⟨c, rest, rfl, -⟩ := h.exists_eq_cons
  exact List.cons_ne_nil c rest

theorem not_beginsMark (h : a.IsWrittenAs text) : ¬BeginsMark (text ++ after) := by
  obtain ⟨c, rest, rfl, hc⟩ := h.exists_eq_cons
  have hplain : IsPlainLetter c := hc.imp_right fun hc => by simp [hc]
  have hequals : c ≠ '=' := fun heq => absurd (heq ▸ hc) (by decide)
  have hmark : c ≠ '!' := fun heq => absurd (heq ▸ hc) (by decide)
  exact not_beginsMark_cons (isBlank_eq_false hplain) hequals hmark

/-- No way to write an atom ends with an equals sign. -/
theorem nearest?_ne (h : a.IsWrittenAs text) : nearest? (text.reverse ++ before) ≠ some '=' := by
  obtain ⟨c, hlast, hc⟩ := a.getLast?_text
  have hnearest : nearest? text.reverse = some c := by
    rw [nearest?_reverse, h.filter_eq, hlast]
  rw [nearest?_append hnearest]
  exact fun heq => hc (Option.some.inj heq)

end IsWrittenAs

end Atom

/-! ## Rows of tokens -/

/-- The token can stand in a tristate expression. -/
def IsToken : Token → Prop
  | .operator op => op = .not ∨ op.IsJunctor
  | .identifier text => ∃ a : Atom, a.IsWrittenAs text.toList
  | .opening | .closing => True

/-- The tokens can be told from each other in every layout. -/
structure IsRow (tokens : List Token) : Prop where
  /-- Each one can stand in a tristate expression. -/
  isToken : ∀ t ∈ tokens, IsToken t
  /-- No two identifiers stand side by side. -/
  apart : tokens.IsChain Token.Apart

/-- The text is the row of tokens, with blanks before, between and after them. -/
inductive IsLayout : List Token → List Char → Prop where
  /-- No token. -/
  | nil {gap : List Char} (isGap : IsGap gap) : IsLayout [] gap
  /-- A token with blanks before it. -/
  | cons {gap text : List Char} {token : Token} {tokens : List Token} (isGap : IsGap gap)
      (next : IsLayout tokens text) : IsLayout (token :: tokens) (gap ++ (token.text ++ text))

section

variable {token : Token} {tokens : List Token}

theorem IsToken.not_beginsMark (h : IsToken token) (hafter : ¬BeginsMark after) :
    ¬BeginsMark (token.text ++ after) := by
  cases token with
  | opening | closing => exact not_beginsMark_cons rfl (by decide) (by decide)
  | identifier name =>
      obtain ⟨a, ha⟩ := h
      exact ha.not_beginsMark
  | operator op =>
      rcases h with rfl | hop
      · intro hmark
        have hnext : after.head? = some '=' :=
          (((beginsMark_cons (c := '!') rfl).1 hmark).resolve_left (by decide)).2
        exact hafter (beginsMark_of_head? hnext)
      · obtain ⟨c, hsymbol, hblank, hequals, hmark, -⟩ := piece?_junctor "" hop
        rw [Token.text, hsymbol]
        exact not_beginsMark_cons hblank hequals hmark

/-- In front of a layout there is no operator of a comparison. -/
theorem IsLayout.not_beginsMark (h : IsLayout tokens text) (htokens : ∀ t ∈ tokens, IsToken t) :
    ¬BeginsMark text := by
  induction h with
  | @nil gap isGap =>
      rw [← List.append_nil gap, isGap.beginsMark_append]
      exact not_beginsMark_nil
  | cons isGap next ih =>
      obtain ⟨htoken, htokens⟩ := List.forall_mem_cons.1 htokens
      rw [isGap.beginsMark_append]
      exact htoken.not_beginsMark (ih htokens)

/-- A token is read from its text, if it can be told from what comes next. -/
theorem IsToken.lexes_cons (h : IsToken token) (happart : ∀ t ∈ tokens.head?, token.Apart t)
    (hafter : ¬BeginsMark after)
    (hnext : ∀ before, nearest? before ≠ some '=' → (grammar stem).Lexes before after tokens)
    (before : List Char) : (grammar stem).Lexes before (token.text ++ after) (token :: tokens) := by
  cases token with
  | opening =>
      have hclear : nearest? ('(' :: before) ≠ some '=' := nearest?_cons_ne rfl (by decide)
      exact .piece (piece?_opening stem) nofun (hnext _ hclear)
  | closing =>
      have hclear : nearest? (')' :: before) ≠ some '=' := nearest?_cons_ne rfl (by decide)
      exact .piece (piece?_closing stem) nofun (hnext _ hclear)
  | identifier name =>
      obtain ⟨a, ha⟩ := h
      have hrest := hnext (name.toList.reverse ++ before) ha.nearest?_ne
      have hends := hrest.not_nextIsLetter fun next hhead => happart _ hhead name next rfl rfl
      have hlexes := Grammar.Lexes.identifier ha.ne_nil ha.allLetters hends hrest
      rwa [String.ofList_toList] at hlexes
  | operator op =>
      rcases h with rfl | hop
      · have hhead : after.head? ≠ some '=' := mt beginsMark_of_head? hafter
        have hclear : nearest? ('!' :: before) ≠ some '=' := nearest?_cons_ne rfl (by decide)
        exact .piece (piece?_not stem hhead) nofun (hnext _ hclear)
      · obtain ⟨c, hsymbol, hblank, hequals, -, hpiece⟩ := piece?_junctor stem hop
        have htail : (Piece.operator op).tail = 1 := by rcases hop with rfl | rfl <;> rfl
        rw [Token.text, hsymbol]
        refine .piece (hpiece before after) nofun ?_
        rw [htail]
        exact hnext (c :: c :: before) (nearest?_cons_ne hblank hequals)

/-- A row of tokens is read from every layout of it. -/
theorem lexes_of_isLayout (h : IsLayout tokens text) (hrow : IsRow tokens)
    (hbefore : nearest? before ≠ some '=') : (grammar stem).Lexes before text tokens := by
  induction h generalizing before with
  | @nil gap isGap =>
      rw [← List.append_nil gap]
      exact isGap.lexes_append hbefore not_beginsMark_nil .nil
  | cons isGap next ih =>
      obtain ⟨htoken, htokens⟩ := List.forall_mem_cons.1 hrow.isToken
      obtain ⟨hhead, hchain⟩ := List.isChain_cons.1 hrow.apart
      have hafter := next.not_beginsMark htokens
      exact isGap.lexes_append hbefore (htoken.not_beginsMark hafter)
        (htoken.lexes_cons hhead hafter (fun _ => ih ⟨htokens, hchain⟩) _)

end

namespace IsRow

variable {t : Token} {xs ys : List Token}

theorem cons (ht : IsToken t) (hname : ∀ name, t ≠ .identifier name) (h : IsRow xs) :
    IsRow (t :: xs) :=
  ⟨List.forall_mem_cons.2 ⟨ht, h.isToken⟩,
    List.isChain_cons.2 ⟨fun _ _ name _ heq => absurd heq (hname name), h.apart⟩⟩

theorem append_cons (hx : IsRow xs) (hname : ∀ name, t ≠ .identifier name) (h : IsRow (t :: ys)) :
    IsRow (xs ++ t :: ys) := by
  refine ⟨List.forall_mem_append.2 ⟨hx.isToken, h.isToken⟩,
    List.isChain_append.2 ⟨hx.apart, h.apart, fun _ _ u hu _ name _ => ?_⟩⟩
  rw [List.head?_cons, Option.mem_some_iff] at hu
  exact hu ▸ hname name

theorem brackets (h : IsRow xs) : IsRow (.opening :: xs ++ [.closing]) := by
  have hclosing : IsRow [.closing] := ⟨List.forall_mem_singleton.2 trivial, .singleton _⟩
  exact (h.append_cons (t := .closing) nofun hclosing).cons trivial nofun

theorem bracketedTokens {op : Operator} (hx : IsRow xs) (hop : op.IsJunctor) (hy : IsRow ys) :
    IsRow (bracketedTokens op xs ys) := by
  have hright : IsRow (.operator op :: ys) := hy.cons (Or.inr hop) nofun
  exact (hx.append_cons (t := .operator op) nofun hright).brackets

end IsRow

/-! ## Conditions -/

/-- A condition with brackets around every conjunction and disjunction. -/
inductive Condition where
  /-- A symbol, a truth value or a comparison, as it is written. -/
  | atom (a : Atom) (text : String) (isText : a.IsWrittenAs text.toList)
  /-- A negation. -/
  | not (operand : Condition)
  /-- Brackets around anything. -/
  | brackets (inner : Condition)
  /-- A conjunction with its brackets. -/
  | and (left right : Condition)
  /-- A disjunction with its brackets. -/
  | or (left right : Condition)

namespace Condition

/-- The tokens that the condition is written with. -/
def tokens : Condition → List Token
  | atom _ text _ => [.identifier text]
  | not c => .operator .not :: c.tokens
  | brackets c => .opening :: c.tokens ++ [.closing]
  | and l r => bracketedTokens .and l.tokens r.tokens
  | or l r => bracketedTokens .or l.tokens r.tokens

/-- The formula in which each atom has its meaning. -/
def meaning (stem : String) : Condition → Formula
  | atom a _ _ => a.meaning stem
  | not c => .negation (c.meaning stem)
  | brackets c => c.meaning stem
  | and l r => .conjunction (l.meaning stem) (r.meaning stem)
  | or l r => .disjunction (l.meaning stem) (r.meaning stem)

/-- How many levels the tokens are nested. -/
def nesting : Condition → Nat
  | atom _ _ _ => 0
  | not c | brackets c => c.nesting + 1
  | and l r | or l r => max l.nesting r.nesting + 2

theorem isOperand_tokens (c : Condition) : IsOperand c.tokens := by
  induction c with
  | atom a text isText => exact .identifier text
  | not c ih => exact ih.not
  | brackets c ih => exact .brackets ih.balanced
  | and l r ihl ihr => exact ihl.bracketedTokens ihr .and
  | or l r ihl ihr => exact ihl.bracketedTokens ihr .or

theorem isRow_tokens (c : Condition) : IsRow c.tokens := by
  induction c with
  | atom a text isText => exact ⟨List.forall_mem_singleton.2 ⟨a, isText⟩, .singleton _⟩
  | not c ih => exact ih.cons (Or.inl rfl) nofun
  | brackets c ih => exact ih.brackets
  | and l r ihl ihr => exact ihl.bracketedTokens (Or.inl rfl) ihr
  | or l r ihl ihr => exact ihl.bracketedTokens (Or.inr rfl) ihr

/-- The tokens need as many levels as the condition is nested. -/
theorem hasNesting_tokens (stem : String) (c : Condition) :
    HasNesting (grammar stem) c.tokens (c.meaning stem) c.nesting := by
  induction c with
  | atom a text isText => exact .identifier isText.identifier
  | not c ih => exact ih.not c.isOperand_tokens rfl
  | brackets c ih => exact ih.ofBalanced c.isOperand_tokens.balanced
  | and l r ihl ihr =>
      exact .bracketedTokens (Or.inl rfl) l.isOperand_tokens r.isOperand_tokens ihl ihr rfl
  | or l r ihl ihr =>
      exact .bracketedTokens (Or.inr rfl) l.isOperand_tokens r.isOperand_tokens ihl ihr rfl

end Condition

/-- Every layout of a condition is parsed as its meaning if the limit allows its nesting, and is
too deep otherwise. -/
theorem parse_layout_eq {c : Condition} {text : String} (h : IsLayout c.tokens text.toList)
    (stem : String) (maxDepth : Nat) :
    Parser.parse ⟨grammar stem, maxDepth⟩ text =
      if c.nesting ≤ maxDepth then .ok (c.meaning stem) else .error (.tooDeep maxDepth) := by
  have htokens : (grammar stem).tokens text = .ok c.tokens :=
    Grammar.tokens_eq_ok_iff.2 (lexes_of_isLayout h c.isRow_tokens nofun)
  rw [Parser.parse, Parser.read, htokens]
  refine (c.hasNesting_tokens stem maxDepth (maxDepth + 1)).trans ?_
  simp only [Nat.lt_succ_iff]

/-- The condition of `(A == "yes" && !B!="m")`. -/
def Condition.comparisons : Condition :=
  .and
    (.atom (.comparison "A" (by decide) true .yes) "A ==\t\"yes\""
      ⟨[' '], ['\t'], by decide, by decide, by decide⟩)
    (.not (.atom (.comparison "B" (by decide) false .m) "B!=\"m\""
      ⟨[], [], by decide, by decide, by decide⟩))

theorem parse_layout_eq_example :
    IsLayout Condition.comparisons.tokens "( A ==\t\"yes\"&& ! B!=\"m\")\t".toList ∧
      Parser.parse ⟨grammar, 3⟩ "( A ==\t\"yes\"&& ! B!=\"m\")\t" =
        .ok (.conjunction (.atom "CONFIG_A") (.negation (.negation (.atom "CONFIG_B_MODULE")))) ∧
      Parser.parse ⟨grammar, 2⟩ "( A ==\t\"yes\"&& ! B!=\"m\")\t" = .error (.tooDeep 2) := by
  have h : IsLayout Condition.comparisons.tokens "( A ==\t\"yes\"&& ! B!=\"m\")\t".toList :=
    @IsLayout.cons [] _ _ _ (by decide) <| @IsLayout.cons [' '] _ _ _ (by decide) <|
      @IsLayout.cons [] _ _ _ (by decide) <| @IsLayout.cons [' '] _ _ _ (by decide) <|
        @IsLayout.cons [' '] _ _ _ (by decide) <| @IsLayout.cons [] _ _ _ (by decide) <|
          @IsLayout.nil ['\t'] (by decide)
  exact ⟨h, parse_layout_eq h defaultStem 3, parse_layout_eq h defaultStem 2⟩

end Tristate

end Presence
