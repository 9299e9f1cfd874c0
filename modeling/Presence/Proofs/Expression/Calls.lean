import Presence.Proofs.Expression.Rereading
import Presence.Proofs.Expression.Spelling

/-!
# Calls in place of symbols

A plain expression becomes a test of definedness with the same meaning if calls are put around
any of its symbols (`Definedness.PutsCalls`), and both are nested equally deep
(`Definedness.parse_putsCalls`).  The truth values `1` and `0` have to stay as they are, because
the call of `1` is an atom.

The brackets of a call are told from other brackets by what comes before them.  An expression
that is parsed has no identifier in front of an opening bracket (`ReadsAs.isChain`), so no other
bracket looks as if it opened a call.  A closing bracket is that of a call only if one is open,
and none is open after a whole symbol or call (`Definedness.NoneOpen`).  So the tokens are the
same but for the identifiers, and these mean the same (`Token.Alike`).
-/

namespace Presence

/-! ## Tokens of two grammars -/

/-- The tokens are the same, or they are identifiers of the same meaning. -/
inductive Token.Alike (g g' : Grammar) : Token → Token → Prop where
  /-- Opening brackets. -/
  | opening : Alike g g' .opening .opening
  /-- Closing brackets. -/
  | closing : Alike g g' .closing .closing
  /-- The same operator. -/
  | operator (op : Operator) : Alike g g' (.operator op) (.operator op)
  /-- Identifiers of the same meaning. -/
  | identifier {x y : String} (meaning : g.identifier x = g'.identifier y) :
      Alike g g' (.identifier x) (.identifier y)

/-- The tokens of two rows are alike, one by one. -/
abbrev AlikeRows (g g' : Grammar) : List Token → List Token → Prop :=
  List.Forall₂ (Token.Alike g g')

namespace AlikeRows

variable {g g' : Grammar} {xs xs' ys tokens : List Token} {op : Operator}

theorem levelAfter_eq (h : AlikeRows g g' xs ys) (level : Nat) :
    levelAfter level xs = levelAfter level ys := by
  induction h generalizing level with
  | nil => rfl
  | cons htoken _ ih =>
      cases htoken with
      | opening | operator | identifier => exact ih _
      | closing =>
          cases level with
          | zero => rfl
          | succ level => exact ih level

theorem outerOperators_eq (h : AlikeRows g g' xs ys) (level : Nat) :
    outerOperators level xs = outerOperators level ys := by
  induction h generalizing level with
  | nil => rfl
  | cons htoken _ ih =>
      cases htoken with
      | opening | identifier => exact ih _
      | operator op => rw [outerOperators, outerOperators, ih]
      | closing =>
          cases level with
          | zero => rfl
          | succ level => exact ih level

theorem balanced (h : AlikeRows g g' xs ys) (hxs : Balanced xs) : Balanced ys := by
  rwa [Balanced, ← h.levelAfter_eq]

theorem isRoot {xs' ys' : List Token} (hx : AlikeRows g g' xs xs') (hy : AlikeRows g g' ys ys')
    (h : IsRoot xs op ys) : IsRoot xs' op ys' where
  left := hx.balanced h.left
  right := hy.balanced h.right
  before := by
    rw [← hx.outerOperators_eq]
    exact h.before
  after := by
    rw [← hy.outerOperators_eq]
    exact h.after

/-- What is alike to two rows, one after the other, is made of two rows. -/
theorem exists_append (h : AlikeRows g g' (xs ++ ys) tokens) :
    ∃ xs' ys', tokens = xs' ++ ys' ∧ AlikeRows g g' xs xs' ∧ AlikeRows g g' ys ys' := by
  induction xs generalizing tokens with
  | nil => exact ⟨[], tokens, rfl, .nil, h⟩
  | cons x xs ih =>
      cases h with
      | cons htoken hrest =>
          obtain ⟨xs', ys', rfl, hx, hy⟩ := ih hrest
          exact ⟨_, ys', rfl, .cons htoken hx, hy⟩

theorem exists_operator (h : AlikeRows g g' (.operator op :: xs) tokens) :
    ∃ xs', tokens = .operator op :: xs' ∧ AlikeRows g g' xs xs' := by
  cases h with
  | cons htoken hrest =>
      cases htoken
      exact ⟨_, rfl, hrest⟩

theorem exists_brackets (h : AlikeRows g g' (.opening :: xs ++ [.closing]) tokens) :
    ∃ xs', tokens = .opening :: xs' ++ [.closing] ∧ AlikeRows g g' xs xs' := by
  cases h with
  | cons htoken hrest =>
      cases htoken
      obtain ⟨xs', ys', rfl, hx, hy⟩ := exists_append hrest
      cases hy with
      | cons hclosing hnil =>
          cases hclosing
          cases hnil
          exact ⟨xs', rfl, hx⟩

theorem ne_nil (h : AlikeRows g g' xs ys) (hxs : xs ≠ []) : ys ≠ [] := by
  cases h with
  | nil => exact absurd rfl hxs
  | cons => exact List.cons_ne_nil _ _

theorem piece_append (h : AlikeRows g g' xs ys) (piece : Piece) :
    AlikeRows g g' (piece.tokens ++ xs) (piece.tokens ++ ys) := by
  cases piece with
  | whitespace | letter => exact h
  | opening => exact .cons .opening h
  | closing => exact .cons .closing h
  | operator op => exact .cons (.operator op) h

theorem exists_head {name : String} (h : AlikeRows g g' xs ys)
    (hys : ys.head? = some (.identifier name)) : ∃ name', xs.head? = some (.identifier name') := by
  cases h with
  | nil => cases hys
  | cons htoken _ =>
      cases hys
      cases htoken
      exact ⟨_, rfl⟩

end AlikeRows

namespace ReadsAs

variable {g g' : Grammar} {levels : Nat} {tokens tokens' : List Token} {f : Formula}

/-- Tokens that are alike need the same number of levels for the same formula. -/
theorem exists_hasNesting (h : ReadsAs g levels tokens f) (halike : AlikeRows g g' tokens tokens')
    (hunary : g.unary = g'.unary) (hbinary : g.binary = g'.binary) :
    ∃ need, HasNesting g tokens f need ∧ HasNesting g' tokens' f need := by
  induction h generalizing tokens' with
  | identifier meaning =>
      cases halike with
      | cons htoken hnil =>
          cases hnil
          cases htoken with
          | identifier hsame =>
              exact ⟨0, .identifier meaning, .identifier (hsame.symm.trans meaning)⟩
  | unary isRoot arity operand meaning ih =>
      obtain ⟨xs', rfl, hx⟩ := halike.exists_operator
      obtain ⟨n, hn, hn'⟩ := ih hx
      refine ⟨n + 1, .unary isRoot arity operand.ne_nil hn meaning,
        .unary (AlikeRows.isRoot .nil hx isRoot) arity (hx.ne_nil operand.ne_nil) hn' ?_⟩
      rwa [← hunary]
  | binary isRoot arity left right meaning ihl ihr =>
      obtain ⟨xs', _, rfl, hx, hrest⟩ := halike.exists_append
      obtain ⟨ys', rfl, hy⟩ := hrest.exists_operator
      obtain ⟨n, hn, hn'⟩ := ihl hx
      obtain ⟨m, hm, hm'⟩ := ihr hy
      refine ⟨max n m + 1, .binary isRoot arity left.ne_nil hn hm meaning,
        .binary (hx.isRoot hy isRoot) arity (hx.ne_nil left.ne_nil) hn' hm' ?_⟩
      rwa [← hbinary]
  | brackets balanced noRoot inner ih =>
      have hrow := halike
      obtain ⟨xs', rfl, hx⟩ := halike.exists_brackets
      obtain ⟨n, hn, hn'⟩ := ih hx
      refine ⟨n + 1, hn.brackets balanced noRoot, hn'.brackets (hrow.balanced balanced) ?_⟩
      rwa [← hrow.outerOperators_eq]

end ReadsAs

/-! ## What follows an identifier -/

/-- After an identifier neither another one nor an opening bracket comes. -/
def Token.MayPrecede (s t : Token) : Prop :=
  ∀ name, s = identifier name → t ≠ opening ∧ ∀ name', t ≠ identifier name'

/-- Each token may precede the one that comes after it. -/
def IsSeparated (tokens : List Token) : Prop := tokens.IsChain Token.MayPrecede

namespace IsSeparated

variable {s t : Token} {xs ys : List Token}

theorem cons (hs : ∀ name, s ≠ .identifier name) (h : IsSeparated xs) : IsSeparated (s :: xs) :=
  List.isChain_cons.2 ⟨fun _ _ name heq => absurd heq (hs name), h⟩

theorem append_cons (hx : IsSeparated xs) (hopening : t ≠ .opening)
    (hname : ∀ name, t ≠ .identifier name) (h : IsSeparated (t :: ys)) :
    IsSeparated (xs ++ t :: ys) := by
  refine List.isChain_append.2 ⟨hx, h, fun s _ t' ht name _ => ?_⟩
  rw [List.head?_cons, Option.mem_some_iff] at ht
  subst ht
  exact ⟨hopening, hname⟩

theorem of_append (h : IsSeparated (xs ++ ys)) : IsSeparated ys := (List.isChain_append.1 h).2.1

/-- The first token after an identifier. -/
theorem head?_ne {name : String} (h : IsSeparated (.identifier name :: xs))
    (ht : xs.head? = some t) : t ≠ .opening ∧ ∀ name', t ≠ .identifier name' :=
  (List.isChain_cons.1 h).1 t ht name rfl

end IsSeparated

theorem ReadsAs.isSeparated {g : Grammar} {levels : Nat} {tokens : List Token} {f : Formula}
    (h : ReadsAs g levels tokens f) : IsSeparated tokens := by
  induction h with
  | identifier => exact .singleton _
  | unary _ _ _ _ ih => exact ih.cons nofun
  | binary _ _ _ _ _ ihl ihr => exact ihl.append_cons nofun nofun (ihr.cons nofun)
  | brackets _ _ _ ih =>
      have hclosing : IsSeparated [.closing] := .singleton _
      exact (ih.append_cons (t := .closing) nofun nofun hclosing).cons nofun

namespace Definedness

variable {before before' after text text' word run rest : List Char} {c : Char} {call : String}
  {tokens : List Token} {piece : Piece}

/-! ## Putting calls around symbols -/

/-- No character of a symbol comes next. -/
def EndsSymbol (text : List Char) : Prop := ∀ c ∈ text.head?, isSymbolChar c = false

theorem EndsSymbol.cons (hc : isSymbolChar c = false) : EndsSymbol (c :: text) := by
  intro d hd
  cases hd
  exact hc

/-- A symbol does not end where it begins. -/
theorem not_endsSymbol_append (hword : isSymbol word = true) : ¬EndsSymbol (word ++ text) := by
  obtain ⟨c, word, rfl⟩ := List.exists_cons_of_ne_nil (ne_nil_of_isSymbol hword)
  intro hends
  have hc := isSymbolChar_of_isSymbol hword c List.mem_cons_self
  rw [hends c rfl] at hc
  cases hc

/-- The second text is the first with a call around some of its symbols, none of which is a
truth value.  A symbol is as long as it can be, as it is where a plain expression is read. -/
inductive PutsCalls : List Char → List Char → Prop where
  /-- Nothing is left. -/
  | nil : PutsCalls [] []
  /-- A character that is not part of a symbol. -/
  | other {c : Char} {text text' : List Char} (noSymbol : isSymbolChar c = false)
      (next : PutsCalls text text') : PutsCalls (c :: text) (c :: text')
  /-- A symbol that is left as it is. -/
  | kept {word text text' : List Char} (isWord : isSymbol word = true) (ends : EndsSymbol text)
      (next : PutsCalls text text') : PutsCalls (word ++ text) (word ++ text')
  /-- A symbol with a call around it. -/
  | tested {word text text' : List Char} {call : String} (isCall : call ∈ calls)
      (isWord : isSymbol word = true) (noTruth : word ≠ ['1'] ∧ word ≠ ['0'])
      (ends : EndsSymbol text) (next : PutsCalls text text') :
      PutsCalls (word ++ text) (callText call word ++ text')

theorem takeWhile_append (hword : ∀ c ∈ word, isSymbolChar c = true) (ends : EndsSymbol text) :
    (word ++ text).takeWhile isSymbolChar = word := by
  rw [List.takeWhile_append_of_pos hword]
  cases text with
  | nil => simp
  | cons c text =>
      have hc : isSymbolChar c = false := ends c rfl
      simp [hc]

theorem append_inj_of_endsSymbol {word' rest' : List Char} (hword : isSymbol word = true)
    (hword' : isSymbol word' = true) (ends : EndsSymbol rest) (ends' : EndsSymbol rest')
    (h : word ++ rest = word' ++ rest') : word = word' ∧ rest = rest' := by
  have hrun := congrArg (List.takeWhile isSymbolChar) h
  rw [takeWhile_append (isSymbolChar_of_isSymbol hword) ends,
    takeWhile_append (isSymbolChar_of_isSymbol hword') ends'] at hrun
  subst hrun
  exact ⟨rfl, List.append_cancel_left h⟩

namespace PutsCalls

theorem eq_nil (h : PutsCalls [] text') : text' = [] := by
  generalize hwhole : ([] : List Char) = whole at h
  cases h with
  | nil => rfl
  | other => cases hwhole
  | kept isWord => exact absurd (List.append_eq_nil_iff.1 hwhole.symm).1 (ne_nil_of_isSymbol isWord)
  | tested _ isWord =>
      exact absurd (List.append_eq_nil_iff.1 hwhole.symm).1 (ne_nil_of_isSymbol isWord)

theorem exists_cons (h : PutsCalls (c :: text) text') (hc : isSymbolChar c = false) :
    ∃ rest', text' = c :: rest' ∧ PutsCalls text rest' := by
  have hends : EndsSymbol (c :: text) := .cons hc
  generalize hwhole : c :: text = whole at h hends
  cases h with
  | nil => cases hwhole
  | other _ next =>
      cases hwhole
      exact ⟨_, rfl, next⟩
  | kept isWord => exact absurd hends (not_endsSymbol_append isWord)
  | tested _ isWord => exact absurd hends (not_endsSymbol_append isWord)

theorem exists_append (h : PutsCalls (rest ++ text) text')
    (hrest : ∀ c ∈ rest, isSymbolChar c = false) :
    ∃ rest', text' = rest ++ rest' ∧ PutsCalls text rest' := by
  induction rest generalizing text' with
  | nil => exact ⟨text', rfl, h⟩
  | cons c rest ih =>
      obtain ⟨hc, hrest⟩ := List.forall_mem_cons.1 hrest
      obtain ⟨more, rfl, hmore⟩ := h.exists_cons hc
      obtain ⟨rest', rfl, hnext⟩ := ih hmore hrest
      exact ⟨rest', rfl, hnext⟩

theorem exists_word (h : PutsCalls (word ++ text) text') (hword : isSymbol word = true)
    (ends : EndsSymbol text) :
    ∃ rest', PutsCalls text rest' ∧ (text' = word ++ rest' ∨
      ∃ call ∈ calls, (word ≠ ['1'] ∧ word ≠ ['0']) ∧ text' = callText call word ++ rest') := by
  generalize hwhole : word ++ text = whole at h
  cases h with
  | nil => exact absurd (List.append_eq_nil_iff.1 hwhole).1 (ne_nil_of_isSymbol hword)
  | other noSymbol next =>
      have hends : EndsSymbol (word ++ text) := hwhole ▸ .cons noSymbol
      exact absurd hends (not_endsSymbol_append hword)
  | kept isWord ends' next =>
      obtain ⟨rfl, rfl⟩ := append_inj_of_endsSymbol hword isWord ends ends' hwhole
      exact ⟨_, next, Or.inl rfl⟩
  | @tested word' text₁ text₂ call isCall isWord noTruth ends' next =>
      obtain ⟨rfl, rfl⟩ := append_inj_of_endsSymbol hword isWord ends ends' hwhole
      exact ⟨_, next, Or.inr ⟨call, isCall, noTruth, rfl⟩⟩

end PutsCalls

/-! ## Brackets of calls -/

/-- A closing bracket would not be that of a call. -/
def NoneOpen (before : List Char) : Prop := closesCall ⟨before, ')', []⟩ = false

theorem opensCall_of_ne (h : c ≠ '(') : opensCall ⟨before, c, after⟩ = false := by
  rw [opensCall, beq_eq_false_iff_ne.2 h, Bool.false_and]

theorem closesCall_of_ne (h : c ≠ ')') : closesCall ⟨before, c, after⟩ = false := by
  rw [closesCall, beq_eq_false_iff_ne.2 h, Bool.false_and]

/-- No call opens behind what is no symbol. -/
theorem opensCall_of_endsSymbol (h : EndsSymbol before) :
    opensCall ⟨before, c, after⟩ = false := by
  have hword : before.takeWhile isSymbolChar = [] := takeWhile_append (List.forall_mem_nil _) h
  rw [opensCall, hword]
  exact Bool.and_false _

theorem isSymbol_of_mem_calls (hcall : call ∈ calls) : isSymbol call.toList = true := by
  have hcalls : ∀ call ∈ calls, isSymbol call.toList = true := by decide
  exact hcalls call hcall

/-- A call opens behind its name. -/
theorem opensCall_of_call (hcall : call ∈ calls) (hbefore : EndsSymbol before) :
    opensCall ⟨call.toList.reverse ++ before, '(', after⟩ = true := by
  have hname : ∀ c ∈ call.toList.reverse, isSymbolChar c = true := fun c hc =>
    isSymbolChar_of_isSymbol (isSymbol_of_mem_calls hcall) c (List.mem_reverse.1 hc)
  rw [opensCall, takeWhile_append hname hbefore, Bool.and_eq_true_iff]
  exact ⟨rfl, List.any_eq_true.2 ⟨call, hcall, beq_self_eq_true _⟩⟩

/-- Behind the argument of a call comes its closing bracket. -/
theorem closesCall_of_call (hcall : call ∈ calls) (hbefore : EndsSymbol before)
    (hword : ∀ c ∈ word, isSymbolChar c = true) :
    closesCall ⟨word.reverse ++ '(' :: (call.toList.reverse ++ before), ')', after⟩ = true := by
  have hreverse : ∀ c ∈ word.reverse, isSymbolChar c = true := fun c hc =>
    hword c (List.mem_reverse.1 hc)
  rw [closesCall, List.dropWhile_append_of_pos hreverse,
    List.dropWhile_cons_of_neg (by decide), Bool.and_eq_true_iff]
  exact ⟨rfl, opensCall_of_call hcall hbefore⟩

namespace NoneOpen

theorem nil : NoneOpen [] := rfl

theorem cons (hc : isSymbolChar c = false) (hopens : opensCall ⟨before, c, []⟩ = false) :
    NoneOpen (c :: before) := by
  rw [NoneOpen, closesCall, List.dropWhile_cons_of_neg (by simp [hc])]
  exact hopens

theorem append (hword : ∀ c ∈ word, isSymbolChar c = true) (h : NoneOpen before) :
    NoneOpen (word.reverse ++ before) := by
  have hreverse : ∀ c ∈ word.reverse, isSymbolChar c = true := fun c hc =>
    hword c (List.mem_reverse.1 hc)
  rw [NoneOpen, closesCall, List.dropWhile_append_of_pos hreverse]
  exact h

/-- Behind a call none is open. -/
theorem callText (call : String) (argument before : List Char) :
    NoneOpen ((callText call argument).reverse ++ before) := by
  have hreverse : (Definedness.callText call argument).reverse =
      ')' :: (call.toList ++ '(' :: argument).reverse := by
    simp [Definedness.callText]
  rw [hreverse]
  exact NoneOpen.cons rfl (opensCall_of_ne (by decide))

end NoneOpen

/-! ## Pieces -/

theorem piece?_of_isSymbolChar (hc : isSymbolChar c = true) :
    grammar.piece? ⟨before, c, after⟩ = some (.letter c) := by
  have hopening : c ≠ '(' := fun heq => by
    rw [heq] at hc
    cases hc
  have hclosing : c ≠ ')' := fun heq => by
    rw [heq] at hc
    cases hc
  rw [piece?_eq_plain (opensCall_of_ne hopening) (closesCall_of_ne hclosing)]
  exact Plain.piece?_of_isSymbolChar hc

/-- The bracket that opens a call is a letter. -/
theorem piece?_opening (h : opensCall ⟨before, '(', after⟩ = true) :
    grammar.piece? ⟨before, '(', after⟩ = some (.letter '(') := by
  have hop : Place.operator? ⟨before, '(', after⟩ = none := rfl
  simp [Grammar.piece?, grammar, hop, h, Plain.isSpace]

theorem piece?_closing (h : closesCall ⟨before, ')', after⟩ = true) :
    grammar.piece? ⟨before, ')', after⟩ = some (.letter ')') := by
  have hop : Place.operator? ⟨before, ')', after⟩ = none := rfl
  simp [Grammar.piece?, grammar, hop, h, Plain.isSpace]

theorem allLetters_of_symbol (hword : ∀ c ∈ word, isSymbolChar c = true) :
    grammar.AllLetters before after word := by
  induction word generalizing before with
  | nil => trivial
  | cons c word ih =>
      obtain ⟨hc, hword⟩ := List.forall_mem_cons.1 hword
      exact ⟨piece?_of_isSymbolChar hc, ih hword⟩

/-- All characters of a call are letters. -/
theorem allLetters_callText (hcall : call ∈ calls) (hbefore : EndsSymbol before)
    (hword : ∀ c ∈ word, isSymbolChar c = true) :
    grammar.AllLetters before after (callText call word) := by
  have hname := isSymbolChar_of_isSymbol (isSymbol_of_mem_calls hcall)
  refine Grammar.allLetters_append.2 ⟨allLetters_of_symbol hname, ?_, ?_⟩
  · exact piece?_opening (opensCall_of_call hcall hbefore)
  · refine Grammar.allLetters_append.2 ⟨allLetters_of_symbol hword, ?_, trivial⟩
    exact piece?_closing (closesCall_of_call hcall hbefore hword)

/-! ## Pieces that are no letters -/

/-- A piece is the same as in plain expressions, if no call is in the way. -/
theorem piece?_of_begins (h : Plain.Begins c after piece)
    (hbefore : c = '(' → EndsSymbol before) (hnone : NoneOpen before) :
    grammar.piece? ⟨before, c, after⟩ = some piece := by
  have hopens : opensCall ⟨before, c, after⟩ = false := by
    by_cases hc : c = '('
    · exact opensCall_of_endsSymbol (hbefore hc)
    · exact opensCall_of_ne hc
  have hcloses : closesCall ⟨before, c, after⟩ = false := by
    by_cases hc : c = ')'
    · subst hc
      exact hnone
    · exact closesCall_of_ne hc
  rw [piece?_eq_plain hopens hcloses]
  exact Plain.piece?_of_begins h before

/-- No call is open behind a piece. -/
theorem noneOpen_of_begins (h : Plain.Begins c after piece) (notLetter : ¬piece.IsLetter)
    (hbefore : c = '(' → EndsSymbol before) :
    NoneOpen ((after.take piece.tail).reverse ++ c :: before) := by
  have hc := h.isSymbolChar_eq_false notLetter c List.mem_cons_self
  cases piece with
  | letter d => exact absurd ⟨d, rfl⟩ notLetter
  | opening =>
      cases h
      exact .cons hc (opensCall_of_endsSymbol (hbefore rfl))
  | closing =>
      cases h
      exact .cons hc (opensCall_of_ne (by decide))
  | whitespace =>
      refine .cons hc (opensCall_of_ne ?_)
      rintro rfl
      cases h
  | operator op =>
      obtain ⟨hknown, rest, hrest⟩ := h
      rcases hknown with rfl | rfl | rfl
      · cases hrest
        exact .cons hc (opensCall_of_ne (by decide))
      · cases hrest
        exact NoneOpen.cons hc (opensCall_of_ne (by decide))
      · cases hrest
        exact NoneOpen.cons hc (opensCall_of_ne (by decide))

theorem endsSymbol_of_begins (h : Plain.Begins c after piece) (notLetter : ¬piece.IsLetter)
    (before : List Char) : EndsSymbol ((after.take piece.tail).reverse ++ c :: before) := by
  have hother := h.isSymbolChar_eq_false notLetter
  intro d hd
  refine hother d ?_
  cases hrun : (after.take piece.tail).reverse with
  | nil =>
      rw [hrun] at hd
      cases hd
      exact List.mem_cons_self
  | cons e run =>
      rw [hrun] at hd
      cases hd
      exact List.mem_cons_of_mem _ (List.mem_reverse.1 (hrun ▸ List.mem_cons_self))

/-! ## Reading calls -/

/-- A symbol is read as in plain expressions. -/
theorem identifier_of_isSymbol {name : String} (hname : isSymbol name.toList = true) :
    Plain.grammar.identifier name = grammar.identifier name := by
  show Plain.identifier name = identifier name
  cases htested : tested? name.toList with
  | none => rw [identifier, htested]
  | some symbol =>
      obtain ⟨_, call, _, htext⟩ := tested?_eq_some_iff.1 htested
      have hbracket : '(' ∉ name.toList := not_mem_of_isSymbol hname (by decide)
      exact absurd (htext ▸ List.mem_append_right _ List.mem_cons_self) hbracket

/-- A call of a symbol that is no truth value means the symbol. -/
theorem identifier_of_call {name : String} (hname : name.toList = callText call run)
    (hcall : call ∈ calls) (hrun : isSymbol run = true) (htruth : run ≠ ['1'] ∧ run ≠ ['0']) :
    Plain.grammar.identifier (String.ofList run) = grammar.identifier name := by
  show Plain.identifier (String.ofList run) = identifier name
  have hsymbol : IsSymbolName (String.ofList run) := by
    refine ⟨by rwa [String.toList_ofList], fun hone => htruth.1 ?_, fun hzero => htruth.2 ?_⟩
    · exact String.toList_ofList.symm.trans (congrArg String.toList hone)
    · exact String.toList_ofList.symm.trans (congrArg String.toList hzero)
  rw [Plain.identifier_of_isSymbolName hsymbol]
  exact (identifier_eq_ok_iff.2 (Or.inl ⟨call, hcall, run, hrun, hname, rfl⟩)).symm

/-- An opening bracket is read as such in plain expressions. -/
theorem head?_of_opening (h : Plain.grammar.Lexes before ('(' :: rest) tokens) :
    tokens.head? = some .opening := by
  generalize htext : '(' :: rest = text at h
  cases h with
  | nil => cases htext
  | piece isPiece notLetter next =>
      cases htext
      have hpiece := (Plain.piece?_of_begins Plain.begins_opening before).symm.trans isPiece
      cases hpiece
      rfl
  | @identifier _ run _ _ nonempty letters ends next =>
      obtain ⟨c, run, rfl⟩ := List.exists_cons_of_ne_nil nonempty
      obtain rfl : '(' = c := (List.cons.inj htext).1
      exact absurd (Plain.allLetters_iff.1 letters '(' List.mem_cons_self) (by decide)

theorem endsSymbol_of_not_nextIsLetter (h : ¬Plain.grammar.NextIsLetter before text) :
    EndsSymbol text := by
  intro c hc
  obtain ⟨rest, rfl⟩ := List.head?_eq_some_iff.1 hc
  exact Bool.eq_false_iff.2 fun hletter => h (Plain.piece?_of_isSymbolChar hletter)

section

variable {name : String}

/-- Where an expression can be parsed, no bracket opens behind an identifier. -/
theorem head?_ne_opening (hsep : IsSeparated (.identifier name :: tokens))
    (h : Plain.grammar.Lexes before text tokens) : text.head? ≠ some '(' := by
  intro hhead
  obtain ⟨rest, rfl⟩ := List.head?_eq_some_iff.1 hhead
  exact (hsep.head?_ne (head?_of_opening h)).1 rfl

/-- Nor does another identifier begin there. -/
theorem not_nextIsLetter_of_alike {tokens' : List Token}
    (hsep : IsSeparated (.identifier name :: tokens)) (h : grammar.Lexes before text tokens')
    (halike : AlikeRows Plain.grammar grammar tokens tokens') :
    ¬grammar.NextIsLetter before text := by
  refine h.not_nextIsLetter fun name' hhead => ?_
  obtain ⟨name, hhead⟩ := halike.exists_head hhead
  exact (hsep.head?_ne hhead).2 name rfl

end

/-- With calls around some of its symbols a plain text is read as tokens that are alike.  The
induction passes the characters in front on both sides.  In the text with calls none is open
behind them, and a symbol or an opening bracket comes next only if they do not end with a symbol,
so that its name is not made longer and the bracket is not taken for that of a call. -/
theorem exists_lexes (h : Plain.grammar.Lexes before text tokens) (hputs : PutsCalls text text')
    (hsep : IsSeparated tokens) (hnone : NoneOpen before')
    (hstart : EndsSymbol before' ∨ EndsSymbol text ∧ text.head? ≠ some '(') :
    ∃ tokens', grammar.Lexes before' text' tokens' ∧
      AlikeRows Plain.grammar grammar tokens tokens' := by
  induction h generalizing before' text' with
  | nil =>
      obtain rfl := hputs.eq_nil
      exact ⟨[], .nil, .nil⟩
  | @piece before rest c piece tokens isPiece notLetter next ih =>
      have hbegins := Plain.begins_of_piece? isPiece
      have hbefore : c = '(' → EndsSymbol before' := by
        rintro rfl
        exact hstart.resolve_right fun h => h.2 rfl
      rw [← List.take_append_drop piece.tail rest, ← List.cons_append] at hputs
      obtain ⟨rest', rfl, hrest⟩ := hputs.exists_append (hbegins.isSymbolChar_eq_false notLetter)
      obtain ⟨tokens', hlexes, halike⟩ := ih hrest hsep.of_append
        (noneOpen_of_begins hbegins notLetter hbefore)
        (Or.inl (endsSymbol_of_begins hbegins notLetter before'))
      exact ⟨_, .ofPiece (piece?_of_begins (hbegins.of_take rest') hbefore hnone) notLetter
        hbegins.length_take hlexes, halike.piece_append piece⟩
  | @identifier before run rest tokens nonempty letters ends next ih =>
      have hrun := Plain.allLetters_iff.1 letters
      have hsymbol : isSymbol run = true := by simpa [isSymbol, nonempty] using hrun
      have hbefore := hstart.resolve_right fun h => not_endsSymbol_append hsymbol h.1
      have hrest := endsSymbol_of_not_nextIsLetter ends
      have hopening := head?_ne_opening hsep next
      have hnextSep : IsSeparated tokens := (List.isChain_cons.1 hsep).2
      obtain ⟨rest', hnext, rfl | ⟨call, hcall, htruth, rfl⟩⟩ := hputs.exists_word hsymbol hrest
      · obtain ⟨tokens', hlexes, halike⟩ := ih hnext hnextSep (hnone.append hrun)
          (Or.inr ⟨hrest, hopening⟩)
        have hends := not_nextIsLetter_of_alike hsep hlexes halike
        have hname : isSymbol (String.ofList run).toList = true := by rwa [String.toList_ofList]
        exact ⟨_, .identifier nonempty (allLetters_of_symbol hrun) hends hlexes,
          .cons (.identifier (identifier_of_isSymbol hname)) halike⟩
      · obtain ⟨tokens', hlexes, halike⟩ := ih hnext hnextSep (.callText call run before')
          (Or.inr ⟨hrest, hopening⟩)
        have hends := not_nextIsLetter_of_alike hsep hlexes halike
        have hname := identifier_of_call String.toList_ofList hcall hsymbol htruth
        exact ⟨_, .identifier (by simp [callText]) (allLetters_callText hcall hbefore hrun) hends
          hlexes, .cons (.identifier hname) halike⟩

/-! ## Parsing calls -/

/-- With calls around some of its symbols a plain expression that is parsed is parsed alike as a
test of definedness, whatever the limit is.  Within the limit both are the formula, and below the
levels that it needs both are too deep. -/
theorem parse_putsCalls {limit : Nat} {text text' : String} {f : Formula}
    (h : Parser.parse ⟨Plain.grammar, limit⟩ text = .ok f)
    (hputs : PutsCalls text.toList text'.toList) (maxDepth : Nat) :
    Parser.parse ⟨grammar, maxDepth⟩ text' = Parser.parse ⟨Plain.grammar, maxDepth⟩ text := by
  obtain ⟨tokens, htokens, hreads⟩ := Parser.exists_readsAs_of_parse h
  obtain ⟨tokens', hlexes, halike⟩ := exists_lexes (Grammar.tokens_eq_ok_iff.1 htokens) hputs
    hreads.isSeparated .nil (Or.inl nofun)
  obtain ⟨need, hneed, hneed'⟩ := hreads.exists_hasNesting halike rfl rfl
  rw [Parser.parse, Parser.parse, Parser.read, Parser.read, htokens,
    Grammar.tokens_eq_ok_iff.2 hlexes]
  exact (hneed' maxDepth (maxDepth + 1)).trans (hneed maxDepth (maxDepth + 1)).symm

/-- The formula of `!(defined && 1) || B`, in which a symbol has the name of a call. -/
def callsExample : Formula :=
  .disjunction (.negation (.conjunction (.atom "defined") (.constant true))) (.atom "B")

theorem parse_putsCalls_example :
    Parser.parse ⟨Plain.grammar, 4⟩ "!(defined&&1)||B" = .ok callsExample ∧
      PutsCalls "!(defined&&1)||B".toList "!(defined(defined)&&1)||definedEx(B)".toList ∧
      Parser.parse ⟨grammar, 4⟩ "!(defined(defined)&&1)||definedEx(B)" = .ok callsExample := by
  have h : Parser.parse ⟨Plain.grammar, 4⟩ "!(defined&&1)||B" = .ok callsExample := by rfl
  have hputs : PutsCalls "!(defined&&1)||B".toList
      "!(defined(defined)&&1)||definedEx(B)".toList :=
    .other rfl <| .other rfl <|
      @PutsCalls.tested "defined".toList _ _ "defined" (by decide) rfl (by decide) (.cons rfl) <|
        .other rfl <| .other rfl <| @PutsCalls.kept ['1'] _ _ rfl (.cons rfl) <|
          .other rfl <| .other rfl <| .other rfl <|
            @PutsCalls.tested ['B'] [] [] "definedEx" (by decide) rfl (by decide) nofun .nil
  exact ⟨h, hputs, (parse_putsCalls h hputs 4).trans h⟩

end Definedness

end Presence
