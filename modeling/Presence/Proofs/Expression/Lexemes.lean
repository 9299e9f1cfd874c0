import Presence.Proofs.Except
import Presence.Proofs.Expression.CanonicalTokens

/-!
# Lexemes

What a text reads as, said without the pieces at its places (`Grammar.Lexes`).  A piece
that is no letter makes its token at once, and letters that nothing continues make an
identifier.  So each identifier is a stretch of the text, all of it letters.

The lexer reads tokens from a text exactly if the text lexes as them
(`Grammar.tokens_eq_ok_iff`).  What is to be shown of all characters of a text can then be
shown for the three places that a character can have: it begins a piece of its own, it
belongs to an operator that began before it, or it is part of an identifier
(`Grammar.Lexes.forall_mem`).
-/

namespace Presence

/-- The characters of a token. -/
def Token.text : Token → List Char
  | opening => ['(']
  | closing => [')']
  | operator op => op.symbol.toList
  | identifier text => text.toList

/-- Not both tokens are identifiers. -/
def Token.Apart (s t : Token) : Prop := ∀ x y, s = identifier x → t ≠ identifier y

/-- The piece is a character of an identifier. -/
def Piece.IsLetter (piece : Piece) : Prop := ∃ c, piece = .letter c

/-- The tokens of a piece by itself.  A letter alone makes none. -/
def Piece.tokens : Piece → List Token
  | operator op => [.operator op]
  | opening => [.opening]
  | closing => [.closing]
  | whitespace | letter _ => []

theorem Token.ofPieces_cons {piece : Piece} (h : ¬piece.IsLetter) (letters : List Char)
    (pieces : List Piece) :
    ofPieces letters (piece :: pieces) =
      ofLetters letters ++ (piece.tokens ++ ofPieces [] pieces) := by
  cases piece with
  | letter c => exact absurd ⟨c, rfl⟩ h
  | operator | whitespace | opening | closing => rfl

/-! ## Places in a stretch -/

/-- A place of a text in two parts lies in the first or is one of the second. -/
theorem Place.mem_listFrom_append {p : Place} {before xs ys : List Char}
    (h : p ∈ listFrom before (xs ++ ys)) :
    (∃ left right, xs = left ++ p.here :: right ∧ p.before = left.reverse ++ before ∧
        p.after = right ++ ys) ∨
      p ∈ listFrom (xs.reverse ++ before) ys := by
  induction xs generalizing before with
  | nil => exact Or.inr h
  | cons c xs ih =>
      rw [List.reverse_cons, List.append_assoc, List.singleton_append]
      rcases List.mem_cons.1 h with rfl | h
      · exact Or.inl ⟨[], xs, rfl, rfl, rfl⟩
      · refine (ih h).imp_left ?_
        rintro ⟨left, right, rfl, hbefore, hafter⟩
        refine ⟨c :: left, right, rfl, ?_, hafter⟩
        rw [hbefore, List.reverse_cons, List.append_assoc, List.singleton_append]

namespace Grammar

variable {g : Grammar} {before after run rest text : List Char} {c : Char} {tokens : List Token}

/-! ## Stretches of letters -/

/-- Each character of a run is a letter, where the run stands between `before` and `after`. -/
def AllLetters (g : Grammar) (before after : List Char) : (run : List Char) → Prop
  | [] => True
  | c :: run =>
      g.piece? ⟨before, c, run ++ after⟩ = some (.letter c) ∧ AllLetters g (c :: before) after run

/-- The next character is a letter. -/
def NextIsLetter (g : Grammar) (before : List Char) : (text : List Char) → Prop
  | [] => False
  | c :: rest => g.piece? ⟨before, c, rest⟩ = some (.letter c)

/-- The letter of a place is the character there. -/
theorem here_of_piece?_eq_letter {p : Place} (h : g.piece? p = some (.letter c)) : p.here = c := by
  rw [piece?] at h
  split at h
  · cases h
  · split_ifs at h
    · cases h
    · cases h
    · cases h
    · cases h
      rfl

/-- The operator of a place begins there. -/
theorem operator?_of_piece? {p : Place} {op : Operator} (h : g.piece? p = some (.operator op)) :
    g.operator? p = some op := by
  rw [piece?] at h
  split at h
  next heq =>
    cases h
    exact heq
  next => split_ifs at h <;> cases h

theorem allLetters_append {xs ys : List Char} :
    g.AllLetters before after (xs ++ ys) ↔
      g.AllLetters before (ys ++ after) xs ∧ g.AllLetters (xs.reverse ++ before) after ys := by
  induction xs generalizing before with
  | nil => exact (iff_of_eq (true_and _)).symm
  | cons c xs ih =>
      rw [List.cons_append, AllLetters, AllLetters, ih, and_assoc, List.append_assoc,
        List.reverse_cons, List.append_assoc, List.singleton_append]

theorem AllLetters.piece? {left right : List Char}
    (h : g.AllLetters before after (left ++ c :: right)) :
    g.piece? ⟨left.reverse ++ before, c, right ++ after⟩ = some (.letter c) :=
  (allLetters_append.1 h).2.1

theorem AllLetters.nextIsLetter (h : g.AllLetters before rest run) (hrun : run ≠ []) :
    g.NextIsLetter before (run ++ rest) := by
  cases run with
  | nil => exact absurd rfl hrun
  | cons c run => exact h.1

/-! ## Reading as tokens -/

/-- After `before` has been passed, the text is read as the tokens. -/
inductive Lexes (g : Grammar) : (before text : List Char) → List Token → Prop where
  /-- Nothing is left. -/
  | nil {before : List Char} : Lexes g before [] []
  /-- A piece that is no letter, with all its characters. -/
  | piece {before rest : List Char} {c : Char} {piece : Piece} {tokens : List Token}
      (isPiece : g.piece? ⟨before, c, rest⟩ = some piece) (notLetter : ¬piece.IsLetter)
      (next : Lexes g ((rest.take piece.tail).reverse ++ c :: before) (rest.drop piece.tail)
        tokens) :
      Lexes g before (c :: rest) (piece.tokens ++ tokens)
  /-- Letters that the next character does not continue. -/
  | identifier {before run rest : List Char} {tokens : List Token} (nonempty : run ≠ [])
      (letters : g.AllLetters before rest run)
      (ends : ¬g.NextIsLetter (run.reverse ++ before) rest)
      (next : Lexes g (run.reverse ++ before) rest tokens) :
      Lexes g before (run ++ rest) (.identifier (String.ofList run) :: tokens)

/-- A piece with all its characters, which are told apart from what comes next. -/
theorem Lexes.ofPiece {piece : Piece}
    (isPiece : g.piece? ⟨before, c, run ++ rest⟩ = some piece) (notLetter : ¬piece.IsLetter)
    (hrun : run.length = piece.tail) (next : g.Lexes (run.reverse ++ c :: before) rest tokens) :
    g.Lexes before (c :: (run ++ rest)) (piece.tokens ++ tokens) := by
  refine .piece isPiece notLetter ?_
  rwa [← hrun, List.take_left, List.drop_left]

/-- A text that begins with a letter is read as an identifier first. -/
theorem Lexes.not_nextIsLetter (h : g.Lexes before text tokens)
    (hhead : ∀ name, tokens.head? ≠ some (.identifier name)) : ¬g.NextIsLetter before text := by
  cases h with
  | nil => exact id
  | piece isPiece notLetter _ =>
      intro hletter
      rw [NextIsLetter, isPiece, Option.some.injEq] at hletter
      exact notLetter ⟨_, hletter⟩
  | identifier => exact absurd rfl (hhead _)

/-! ## The lexer -/

theorem piecesFrom_eq_drop (before text : List Char) (skip : Nat) :
    g.piecesFrom before skip text =
      g.piecesFrom ((text.take skip).reverse ++ before) 0 (text.drop skip) := by
  induction text generalizing before skip with
  | nil => simp [piecesFrom]
  | cons c rest ih =>
      cases skip with
      | zero => rfl
      | succ skip =>
          rw [piecesFrom, ih, List.take_succ_cons, List.drop_succ_cons, List.reverse_cons,
            List.append_assoc, List.singleton_append]

/-- The text begins with a run of letters, which may be empty, and goes on as tokens. -/
def ReadsOn (g : Grammar) (before text : List Char) (pieces : List Piece) : Prop :=
  ∃ run rest tokens, text = run ++ rest ∧ g.AllLetters before rest run ∧
    ¬g.NextIsLetter (run.reverse ++ before) rest ∧ g.Lexes (run.reverse ++ before) rest tokens ∧
    ∀ letters, Token.ofPieces letters pieces = Token.ofLetters (run.reverse ++ letters) ++ tokens

theorem ReadsOn.lexes {pieces : List Piece} (h : g.ReadsOn before text pieces) :
    g.Lexes before text (Token.ofPieces [] pieces) := by
  obtain ⟨run, rest, tokens, rfl, hletters, hends, hnext, htokens⟩ := h
  rw [htokens, List.append_nil]
  by_cases hrun : run = []
  · subst hrun
    exact hnext
  · have hreverse : run.reverse ≠ [] := fun h => hrun (List.reverse_eq_nil_iff.1 h)
    rw [Token.ofLetters_of_ne_nil hreverse, List.reverse_reverse]
    exact .identifier hrun hletters hends hnext

theorem readsOn_of_piecesFrom {skip : Nat} {pieces : List Piece}
    (h : g.piecesFrom before skip text = .ok pieces) :
    g.ReadsOn ((text.take skip).reverse ++ before) (text.drop skip) pieces := by
  induction text generalizing before skip pieces with
  | nil =>
      rw [piecesFrom] at h
      cases h
      rw [List.drop_nil]
      exact ⟨[], [], [], rfl, trivial, id, .nil, fun _ => (List.append_nil _).symm⟩
  | cons c rest ih =>
      cases skip with
      | succ skip =>
          rw [List.take_succ_cons, List.drop_succ_cons, List.reverse_cons, List.append_assoc]
          exact ih h
      | zero =>
          rw [piecesFrom] at h
          split at h
          next => cases h
          next piece hpiece =>
            obtain ⟨pieces, hpieces, rfl⟩ := map_eq_ok_iff.1 h
            have hnext := ih hpieces
            by_cases hletter : piece.IsLetter
            -- A letter makes the run of letters after it longer.
            · obtain ⟨d, rfl⟩ := hletter
              obtain rfl : c = d := here_of_piece?_eq_letter hpiece
              obtain ⟨run, rest', tokens, hrest, hletters, hends, hlexes, htokens⟩ := hnext
              obtain rfl : rest = run ++ rest' := hrest
              refine ⟨c :: run, rest', tokens, rfl, ⟨hpiece, hletters⟩, ?_, ?_, fun letters => ?_⟩
              · rwa [List.reverse_cons, List.append_assoc]
              · rwa [List.reverse_cons, List.append_assoc]
              · rw [Token.ofPieces, htokens, List.reverse_cons, List.append_assoc,
                  List.singleton_append]
            · have hends : ¬g.NextIsLetter before (c :: rest) :=
                fun hc => hletter ⟨c, Option.some.inj (hpiece.symm.trans hc)⟩
              exact ⟨[], c :: rest, piece.tokens ++ Token.ofPieces [] pieces, rfl, trivial, hends,
                .piece hpiece hletter hnext.lexes, fun letters => Token.ofPieces_cons hletter ..⟩

theorem piecesFrom_run (h : g.AllLetters before rest run) {pieces : List Piece}
    (hrest : g.piecesFrom (run.reverse ++ before) 0 rest = .ok pieces) :
    g.piecesFrom before 0 (run ++ rest) = .ok (run.map .letter ++ pieces) := by
  induction run generalizing before with
  | nil => exact hrest
  | cons c run ih =>
      rw [List.reverse_cons, List.append_assoc, List.singleton_append] at hrest
      rw [List.cons_append, piecesFrom, h.1]
      simp only [Piece.tail, ih h.2 hrest]
      rfl

theorem Lexes.exists_pieces (h : g.Lexes before text tokens) :
    ∃ pieces, g.piecesFrom before 0 text = .ok pieces ∧ Token.ofPieces [] pieces = tokens ∧
      (¬g.NextIsLetter before text → Piece.EndLetters pieces) := by
  induction h with
  | nil => exact ⟨[], rfl, rfl, fun _ letters => (List.append_nil _).symm⟩
  | @piece before c rest piece tokens isPiece notLetter next ih =>
      obtain ⟨pieces, hpieces, htokens, _⟩ := ih
      rw [← piecesFrom_eq_drop] at hpieces
      refine ⟨piece :: pieces, ?_, ?_, fun _ letters => ?_⟩
      · rw [piecesFrom, isPiece]
        simp only [hpieces]
        rfl
      · rw [Token.ofPieces_cons notLetter, htokens]
        rfl
      · rw [Token.ofPieces_cons notLetter letters, Token.ofPieces_cons notLetter []]
        rfl
  | identifier nonempty letters ends next ih =>
      obtain ⟨pieces, hpieces, htokens, hend⟩ := ih
      refine ⟨_, piecesFrom_run letters hpieces, ?_, fun hnot => ?_⟩
      · rw [Token.ofPieces_name nonempty (hend ends), htokens]
      · exact absurd (letters.nextIsLetter nonempty) hnot

/-- The lexer reads exactly the tokens as which the text lexes. -/
theorem tokens_eq_ok_iff {text : String} :
    g.tokens text = .ok tokens ↔ g.Lexes [] text.toList tokens := by
  rw [Grammar.tokens, map_eq_ok_iff]
  constructor
  · rintro ⟨pieces, hpieces, rfl⟩
    exact (readsOn_of_piecesFrom hpieces).lexes
  · intro h
    obtain ⟨pieces, hpieces, htokens, _⟩ := h.exists_pieces
    exact ⟨pieces, hpieces, htokens⟩

/-! ## Characters of a text -/

/-- What holds of the places where a piece of its own begins, of those that an operator
reaches over and of those in identifiers holds of all places. -/
theorem Lexes.forall_mem {P : Place → Prop} (h : g.Lexes before text tokens)
    (begins : ∀ p piece, g.piece? p = some piece → ¬piece.IsLetter → P p)
    (inside : ∀ q p op, g.piece? q = some (.operator op) → p.here ∈ q.after.take (op.width - 1) →
      P p)
    (identifier : ∀ before left right after c, g.AllLetters before after (left ++ c :: right) →
      .identifier (String.ofList (left ++ c :: right)) ∈ tokens →
      P ⟨left.reverse ++ before, c, right ++ after⟩) :
    ∀ p ∈ Place.listFrom before text, P p := by
  induction h with
  | nil => exact List.forall_mem_nil _
  | @piece before rest c piece tokens isPiece notLetter next ih =>
      have hnext := ih fun before left right after d hletters hmem =>
        identifier before left right after d hletters (List.mem_append_right _ hmem)
      refine List.forall_mem_cons.2 ⟨begins _ _ isPiece notLetter, fun p hp => ?_⟩
      rw [← List.take_append_drop piece.tail rest] at hp
      rcases Place.mem_listFrom_append hp with ⟨left, right, htake, _, _⟩ | hp
      · have hmem : p.here ∈ rest.take piece.tail := by
          rw [htake]
          exact List.mem_append_right _ List.mem_cons_self
        cases piece with
        | operator op => exact inside _ p op isPiece hmem
        | whitespace | opening | closing | letter => cases hmem
      · exact hnext p hp
  | @identifier before run rest tokens nonempty letters ends next ih =>
      have hnext := ih fun before left right after d hletters hmem =>
        identifier before left right after d hletters (List.mem_cons_of_mem _ hmem)
      intro p hp
      rcases Place.mem_listFrom_append hp with ⟨left, right, rfl, hbefore, hafter⟩ | hp
      · have hp := identifier before left right rest p.here letters List.mem_cons_self
        rwa [← hbefore, ← hafter] at hp
      · exact hnext p hp

end Grammar

end Presence
