import Presence.Proofs.Expression.Lexer

/-!
# Tokens of canonical texts

The canonical text of a formula whose names are symbols holds no comparison and no call.
So every dialect reads the same tokens from it (`Grammar.OfDialect.tokens_render`), and
these are the brackets, operators and names of the formula in order (`Formula.tokens`).

The text is read piece by piece (`Plain.HasPieces`).  The letters of a name become one
identifier because a canonical text never puts two names side by side
(`Piece.EndLetters`).
-/

namespace Presence

/-! ## Symbols -/

section

variable {text : List Char}

theorem isSymbolChar_of_isSymbol (h : isSymbol text = true) :
    ∀ c ∈ text, isSymbolChar c = true :=
  List.all_eq_true.1 (Bool.and_eq_true_iff.1 h).2

theorem ne_nil_of_isSymbol (h : isSymbol text = true) : text ≠ [] := by
  simpa using (Bool.and_eq_true_iff.1 h).1

theorem not_mem_of_isSymbol (h : isSymbol text = true) {c : Char} (hc : isSymbolChar c = false) :
    c ∉ text := by
  intro hmem
  rw [isSymbolChar_of_isSymbol h c hmem] at hc
  cases hc

end

/-- The name is a symbol and no truth value. -/
def IsSymbolName (name : String) : Prop := isSymbol name.toList = true ∧ name ≠ "1" ∧ name ≠ "0"

instance (name : String) : Decidable (IsSymbolName name) :=
  inferInstanceAs (Decidable (_ ∧ _ ∧ _))

namespace IsSymbolName

variable {name : String}

theorem isSymbolChar (h : IsSymbolName name) : ∀ c ∈ name.toList, isSymbolChar c = true :=
  isSymbolChar_of_isSymbol h.1

theorem toList_ne_nil (h : IsSymbolName name) : name.toList ≠ [] := ne_nil_of_isSymbol h.1

end IsSymbolName

/-! ## Canonical texts -/

/-- The operator stands between two operands in canonical texts. -/
def Operator.IsJunctor (op : Operator) : Prop := op = .and ∨ op = .or

/-- Two texts with an operator between them, in brackets. -/
def bracketedText (op : Operator) (left right : List Char) : List Char :=
  '(' :: (left ++ ' ' :: (op.symbol.toList ++ ' ' :: (right ++ [')'])))

/-- The pieces of two texts with an operator between them, in brackets. -/
def bracketedPieces (op : Operator) (left right : List Piece) : List Piece :=
  .opening :: (left ++ .whitespace :: .operator op :: .whitespace :: (right ++ [.closing]))

/-- Two rows of tokens with an operator between them, in brackets. -/
def bracketedTokens (op : Operator) (left right : List Token) : List Token :=
  .opening :: (left ++ .operator op :: right) ++ [.closing]

namespace Formula

/-- All names of the formula are symbols. -/
def HasSymbolNames (f : Formula) : Prop := ∀ name ∈ f.atoms, IsSymbolName name

instance (f : Formula) : Decidable f.HasSymbolNames :=
  inferInstanceAs (Decidable (∀ name ∈ f.atoms, IsSymbolName name))

/-- The pieces of the canonical text. -/
def pieces : Formula → List Piece
  | constant b => [.letter (if b then '1' else '0')]
  | atom name => name.toList.map .letter
  | negation f => .operator .not :: f.pieces
  | conjunction l r => bracketedPieces .and l.pieces r.pieces
  | disjunction l r => bracketedPieces .or l.pieces r.pieces

/-- The tokens of the canonical text. -/
def tokens : Formula → List Token
  | constant b => [.identifier (if b then "1" else "0")]
  | atom name => [.identifier name]
  | negation f => .operator .not :: f.tokens
  | conjunction l r => bracketedTokens .and l.tokens r.tokens
  | disjunction l r => bracketedTokens .or l.tokens r.tokens

variable {l r : Formula}

theorem hasSymbolNames_atom {name : String} : (atom name).HasSymbolNames ↔ IsSymbolName name :=
  List.forall_mem_singleton

theorem hasSymbolNames_conjunction :
    (conjunction l r).HasSymbolNames ↔ l.HasSymbolNames ∧ r.HasSymbolNames :=
  List.forall_mem_append

theorem hasSymbolNames_disjunction :
    (disjunction l r).HasSymbolNames ↔ l.HasSymbolNames ∧ r.HasSymbolNames :=
  List.forall_mem_append

theorem toList_render_negation {f : Formula} :
    (negation f).render.toList = '!' :: f.render.toList := by
  simp [render]

theorem toList_render_conjunction :
    (conjunction l r).render.toList = bracketedText .and l.render.toList r.render.toList := by
  simp [render, bracketedText, Operator.and]

theorem toList_render_disjunction :
    (disjunction l r).render.toList = bracketedText .or l.render.toList r.render.toList := by
  simp [render, bracketedText, Operator.or]

end Formula

/-! ## No comparisons and no calls -/

namespace Tristate

theorem not_mem_ownChars {c : Char} (h : isSymbolChar c = true) : c ∉ ownChars := by
  intro hc
  simp only [ownChars, List.mem_cons, List.not_mem_nil, or_false] at hc
  rcases hc with rfl | rfl | rfl | rfl | rfl | rfl <;> exact absurd h (by decide)

theorem forall_mem_of_all {text : List Char} (h : text.all (· ∉ ownChars) = true) :
    ∀ c ∈ text, c ∉ ownChars := fun c hc => of_decide_eq_true (List.all_eq_true.1 h c hc)

theorem forall_mem_bracketedText {op : Operator} (hop : op.IsJunctor) {left right : List Char}
    (hleft : ∀ c ∈ left, c ∉ ownChars) (hright : ∀ c ∈ right, c ∉ ownChars) :
    ∀ c ∈ bracketedText op left right, c ∉ ownChars := by
  have hsymbol : ∀ c ∈ op.symbol.toList, c ∉ ownChars :=
    forall_mem_of_all (by rcases hop with rfl | rfl <;> decide)
  simp only [bracketedText, List.forall_mem_cons, List.forall_mem_append]
  exact ⟨by decide, hleft, by decide, hsymbol, by decide, hright, by decide,
    List.forall_mem_nil _⟩

/-- A canonical text holds no comparison. -/
theorem forall_mem_render {f : Formula} (hf : f.HasSymbolNames) :
    ∀ c ∈ f.render.toList, c ∉ ownChars := by
  induction f with
  | constant b => exact forall_mem_of_all (by cases b <;> decide)
  | atom name =>
      exact fun c hc => not_mem_ownChars ((Formula.hasSymbolNames_atom.1 hf).isSymbolChar c hc)
  | negation f ih =>
      rw [Formula.toList_render_negation]
      exact List.forall_mem_cons.2 ⟨by decide, ih hf⟩
  | conjunction l r ihl ihr =>
      obtain ⟨hl, hr⟩ := Formula.hasSymbolNames_conjunction.1 hf
      rw [Formula.toList_render_conjunction]
      exact forall_mem_bracketedText (Or.inl rfl) (ihl hl) (ihr hr)
  | disjunction l r ihl ihr =>
      obtain ⟨hl, hr⟩ := Formula.hasSymbolNames_disjunction.1 hf
      rw [Formula.toList_render_disjunction]
      exact forall_mem_bracketedText (Or.inr rfl) (ihl hl) (ihr hr)

end Tristate

namespace Definedness

namespace NoCall

variable {c : Char} {xs ys : List Char}

theorem cons (hc : isSymbolChar c = false) (h : NoCall xs) : NoCall (c :: xs) := by
  cases xs with
  | nil => exact .singleton c
  | cons d xs => exact .cons_cons (fun hsymbol => by rw [hc] at hsymbol; cases hsymbol) h

theorem append_cons (hx : NoCall xs) (hc : c ≠ '(') (h : NoCall (c :: ys)) :
    NoCall (xs ++ c :: ys) := by
  refine List.isChain_append.2 ⟨hx, h, fun a _ b hb _ => ?_⟩
  rw [List.head?_cons, Option.mem_some_iff] at hb
  exact hb ▸ hc

theorem of_not_mem (h : '(' ∉ xs) : NoCall xs := by
  induction xs with
  | nil => exact .nil
  | cons a xs ih =>
      have hxs : '(' ∉ xs := fun hmem => h (List.mem_cons_of_mem _ hmem)
      cases xs with
      | nil => exact .singleton a
      | cons b xs => exact .cons_cons (fun _ hb => hxs (hb ▸ List.mem_cons_self)) (ih hxs)

theorem bracketedText {op : Operator} (hop : op.IsJunctor) (hx : NoCall xs) (hy : NoCall ys) :
    NoCall (bracketedText op xs ys) := by
  have hclosing : NoCall (ys ++ [')']) := hy.append_cons (by decide) (.singleton _)
  have hmiddle : NoCall (' ' :: (op.symbol.toList ++ ' ' :: (ys ++ [')']))) := by
    have hsymbol : '(' ∉ ' ' :: op.symbol.toList := by rcases hop with rfl | rfl <;> decide
    exact (of_not_mem hsymbol).append_cons (by decide) (hclosing.cons (by decide))
  exact (hx.append_cons (by decide) hmiddle).cons (by decide)

end NoCall

/-- A canonical text holds no call. -/
theorem noCall_render {f : Formula} (hf : f.HasSymbolNames) : NoCall f.render.toList := by
  induction f with
  | constant b => cases b <;> exact .singleton _
  | atom name =>
      refine .of_not_mem fun hmem => ?_
      exact absurd ((Formula.hasSymbolNames_atom.1 hf).isSymbolChar _ hmem) (by decide)
  | negation f ih =>
      rw [Formula.toList_render_negation]
      exact (ih hf).cons (by decide)
  | conjunction l r ihl ihr =>
      obtain ⟨hl, hr⟩ := Formula.hasSymbolNames_conjunction.1 hf
      rw [Formula.toList_render_conjunction]
      exact (ihl hl).bracketedText (Or.inl rfl) (ihr hr)
  | disjunction l r ihl ihr =>
      obtain ⟨hl, hr⟩ := Formula.hasSymbolNames_disjunction.1 hf
      rw [Formula.toList_render_disjunction]
      exact (ihl hl).bracketedText (Or.inr rfl) (ihr hr)

end Definedness

/-! ## Tokens of canonical texts -/

namespace Plain

/-- The text has these pieces wherever it begins. -/
def HasPieces (text : List Char) (pieces : List Piece) : Prop :=
  ∀ before, grammar.piecesFrom before 0 text = .ok pieces

theorem piece?_of_isSymbolChar {p : Place} (h : isSymbolChar p.here = true) :
    grammar.piece? p = some (.letter p.here) := by
  have hne : ∀ c : Char, isSymbolChar c = false → p.here ≠ c := by
    rintro c hc rfl
    rw [h] at hc
    cases hc
  have hop : p.operator? = none := by
    simp [Place.operator?, Place.startsWith, Operator.not, Operator.and, Operator.or,
      (hne '!' (by decide)).symm, (hne '&' (by decide)).symm, (hne '|' (by decide)).symm]
  have hspace : isSpace p.here = false := by
    simp [isSpace, hne ' ' (by decide), hne '\t' (by decide), hne '\r' (by decide),
      hne '\n' (by decide)]
  simp [Grammar.piece?, grammar, hop, hspace, h, hne '(' (by decide), hne ')' (by decide)]

namespace HasPieces

variable {c : Char} {text : List Char} {piece : Piece} {ps : List Piece}

theorem nil : HasPieces [] [] := fun _ => rfl

theorem cons (h : HasPieces text ps) (htail : piece.tail = 0)
    (hpiece : ∀ before, grammar.piece? ⟨before, c, text⟩ = some piece) :
    HasPieces (c :: text) (piece :: ps) := by
  intro before
  rw [Grammar.piecesFrom, hpiece]
  simp only [htail, h (c :: before)]
  rfl

theorem letters (h : HasPieces text ps) {name : List Char}
    (hname : ∀ c ∈ name, isSymbolChar c = true) :
    HasPieces (name ++ text) (name.map .letter ++ ps) := by
  induction name with
  | nil => exact h
  | cons c name ih =>
      obtain ⟨hc, hrest⟩ := List.forall_mem_cons.1 hname
      exact (ih hrest).cons rfl fun _ => piece?_of_isSymbolChar hc

theorem junctor (h : HasPieces text ps) {op : Operator} (hop : op.IsJunctor) :
    HasPieces (op.symbol.toList ++ text) (.operator op :: ps) := by
  intro before
  rcases hop with rfl | rfl
  · exact congrArg (Except.map (.operator .and :: ·)) (h ('&' :: '&' :: before))
  · exact congrArg (Except.map (.operator .or :: ·)) (h ('|' :: '|' :: before))

theorem bracketed {op : Operator} (hop : op.IsJunctor) {left right : List Char}
    {ls rs : List Piece} (h : HasPieces text ps)
    (hleft : ∀ {text ps}, HasPieces text ps → HasPieces (left ++ text) (ls ++ ps))
    (hright : ∀ {text ps}, HasPieces text ps → HasPieces (right ++ text) (rs ++ ps)) :
    HasPieces (bracketedText op left right ++ text) (bracketedPieces op ls rs ++ ps) := by
  have hclosing : HasPieces (right ++ ')' :: text) (rs ++ .closing :: ps) :=
    hright (h.cons rfl fun _ => rfl)
  have hoperand : HasPieces (' ' :: (right ++ ')' :: text)) (.whitespace :: (rs ++ .closing :: ps)) :=
    hclosing.cons rfl fun _ => rfl
  have hsymbol : HasPieces (' ' :: (op.symbol.toList ++ ' ' :: (right ++ ')' :: text)))
      (.whitespace :: .operator op :: .whitespace :: (rs ++ .closing :: ps)) :=
    (hoperand.junctor hop).cons rfl fun _ => rfl
  have hopening : HasPieces
      ('(' :: (left ++ ' ' :: (op.symbol.toList ++ ' ' :: (right ++ ')' :: text))))
      (.opening :: (ls ++ .whitespace :: .operator op :: .whitespace :: (rs ++ .closing :: ps))) :=
    (hleft hsymbol).cons rfl fun _ => rfl
  simpa [bracketedText, bracketedPieces] using hopening

/-- A canonical text begins with its pieces. -/
theorem render {f : Formula} (hf : f.HasSymbolNames) (h : HasPieces text ps) :
    HasPieces (f.render.toList ++ text) (f.pieces ++ ps) := by
  induction f generalizing text ps with
  | constant b => cases b <;> exact h.cons rfl fun _ => rfl
  | atom name => exact h.letters (Formula.hasSymbolNames_atom.1 hf).isSymbolChar
  | negation f ih =>
      rw [Formula.toList_render_negation]
      exact (ih hf h).cons rfl fun _ => rfl
  | conjunction l r ihl ihr =>
      obtain ⟨hl, hr⟩ := Formula.hasSymbolNames_conjunction.1 hf
      rw [Formula.toList_render_conjunction]
      exact h.bracketed (Or.inl rfl) (ihl hl) (ihr hr)
  | disjunction l r ihl ihr =>
      obtain ⟨hl, hr⟩ := Formula.hasSymbolNames_disjunction.1 hf
      rw [Formula.toList_render_disjunction]
      exact h.bracketed (Or.inr rfl) (ihl hl) (ihr hr)

end HasPieces

end Plain

/-- No letter comes first, so letters before the pieces are an identifier of their own. -/
def Piece.EndLetters (pieces : List Piece) : Prop :=
  ∀ letters, Token.ofPieces letters pieces = Token.ofLetters letters ++ Token.ofPieces [] pieces

theorem Token.ofPieces_map_letter (letters name : List Char) (ps : List Piece) :
    ofPieces letters (name.map .letter ++ ps) = ofPieces (name.reverse ++ letters) ps := by
  induction name generalizing letters with
  | nil => rfl
  | cons c name ih =>
      rw [List.reverse_cons, List.append_assoc, List.singleton_append]
      exact ih (c :: letters)

theorem Token.ofLetters_of_ne_nil {letters : List Char} (h : letters ≠ []) :
    ofLetters letters = [.identifier (String.ofList letters.reverse)] := by
  cases letters with
  | nil => exact absurd rfl h
  | cons c letters => rfl

/-- Letters that nothing continues are an identifier. -/
theorem Token.ofPieces_name {name : List Char} (hname : name ≠ []) {ps : List Piece}
    (hps : Piece.EndLetters ps) :
    ofPieces [] (name.map .letter ++ ps) =
      .identifier (String.ofList name) :: ofPieces [] ps := by
  have hreverse : name.reverse ≠ [] := fun h => hname (List.reverse_eq_nil_iff.1 h)
  rw [ofPieces_map_letter, List.append_nil, hps, ofLetters_of_ne_nil hreverse, List.reverse_reverse,
    List.singleton_append]

theorem Token.ofPieces_bracketed {op : Operator} {left right : List Piece} {xs ys : List Token}
    (hleft : ∀ {ps}, Piece.EndLetters ps → ofPieces [] (left ++ ps) = xs ++ ofPieces [] ps)
    (hright : ∀ {ps}, Piece.EndLetters ps → ofPieces [] (right ++ ps) = ys ++ ofPieces [] ps)
    (ps : List Piece) :
    ofPieces [] (bracketedPieces op left right ++ ps) =
      bracketedTokens op xs ys ++ ofPieces [] ps := by
  have hclosing : ofPieces [] (right ++ .closing :: ps) = ys ++ .closing :: ofPieces [] ps :=
    hright fun _ => rfl
  have hmiddle :
      ofPieces [] (left ++ .whitespace :: .operator op :: .whitespace :: (right ++ .closing :: ps)) =
        xs ++ .operator op :: ofPieces [] (right ++ .closing :: ps) :=
    hleft fun _ => rfl
  simp [bracketedPieces, bracketedTokens, ofPieces, ofLetters, hmiddle, hclosing]

/-- The pieces of a canonical text make its tokens. -/
theorem Token.ofPieces_pieces {f : Formula} (hf : f.HasSymbolNames) {ps : List Piece}
    (hps : Piece.EndLetters ps) : ofPieces [] (f.pieces ++ ps) = f.tokens ++ ofPieces [] ps := by
  induction f generalizing ps with
  | constant b =>
      have hname : ∀ c : Char, [c] ≠ [] := fun c => List.cons_ne_nil c []
      cases b with
      | false => exact ofPieces_name (hname '0') hps
      | true => exact ofPieces_name (hname '1') hps
  | atom name =>
      have hname := (Formula.hasSymbolNames_atom.1 hf).toList_ne_nil
      rw [Formula.pieces, ofPieces_name hname hps, String.ofList_toList]
      rfl
  | negation f ih => exact congrArg (Token.operator .not :: ·) (ih hf hps)
  | conjunction l r ihl ihr =>
      obtain ⟨hl, hr⟩ := Formula.hasSymbolNames_conjunction.1 hf
      exact ofPieces_bracketed (ihl hl) (ihr hr) ps
  | disjunction l r ihl ihr =>
      obtain ⟨hl, hr⟩ := Formula.hasSymbolNames_disjunction.1 hf
      exact ofPieces_bracketed (ihl hl) (ihr hr) ps

theorem Plain.tokens_render {f : Formula} (hf : f.HasSymbolNames) :
    grammar.tokens f.render = .ok f.tokens := by
  have hpieces : grammar.piecesFrom [] 0 f.render.toList = .ok f.pieces := by
    have h := HasPieces.render hf HasPieces.nil []
    rwa [List.append_nil, List.append_nil] at h
  have htokens : Token.ofPieces [] f.pieces = f.tokens := by
    have hnil : Piece.EndLetters [] := fun letters => (List.append_nil _).symm
    have h := Token.ofPieces_pieces hf hnil
    rwa [List.append_nil, Token.ofPieces, Token.ofLetters, List.append_nil] at h
  rw [Grammar.tokens, hpieces, ← htokens]
  rfl

/-- The grammars of the three dialects, with any text before compared symbols. -/
inductive Grammar.OfDialect : Grammar → Prop where
  /-- Plain expressions. -/
  | plain : OfDialect Plain.grammar
  /-- Tristate comparisons. -/
  | tristate (stem : String) : OfDialect (Tristate.grammar stem)
  /-- Tests of definedness. -/
  | definedness : OfDialect Definedness.grammar

namespace Grammar.OfDialect

variable {g : Grammar}

theorem unary_eq (hg : g.OfDialect) : g.unary = Operator.applyUnary := by
  cases hg <;> rfl

theorem binary_eq (hg : g.OfDialect) : g.binary = Operator.applyBinary := by
  cases hg <;> rfl

end Grammar.OfDialect

/-- Every dialect reads the same tokens from a canonical text. -/
theorem Grammar.OfDialect.tokens_render {g : Grammar} (hg : g.OfDialect) {f : Formula}
    (hf : f.HasSymbolNames) : g.tokens f.render = .ok f.tokens := by
  cases hg with
  | plain => exact Plain.tokens_render hf
  | tristate stem =>
      rw [Tristate.tokens_eq_plain (Tristate.forall_mem_render hf), Plain.tokens_render hf]
  | definedness =>
      rw [Definedness.tokens_eq_plain (Definedness.noCall_render hf), Plain.tokens_render hf]

end Presence
