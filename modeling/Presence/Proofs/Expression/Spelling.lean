import Presence.Proofs.Expression.Lexemes
import Presence.Proofs.Expression.Pieces

/-!
# Spellings of plain tokens

A plain text spells tokens if it is their characters in order, with spaces before, between and
after them (`Plain.IsSpelling`).  Only two identifiers side by side have to be parted.  The lexer
reads tokens from a text exactly if the text spells them, and it stops at the first character
that goes on no spelling (`Plain.tokens_eq_iff_isSpelling`).

Which piece begins at a character can be told from the character itself and those after it, and
no character begins pieces of two classes (`Plain.piece?_eq_some_iff`).  So what comes later
changes nothing in the pieces of a spelling, and what a text spells is decided from its end: a
character in front of a spelling either begins a piece, and then the whole is a spelling, or it
is stray (`Plain.isSpelling_or_stray`).
-/

namespace Presence.Plain

variable {before after text gap : List Char} {c : Char} {piece : Piece} {token : Token}
  {tokens : List Token}

/-! ## Which piece begins at a character -/

/-- The piece begins at a character before others. -/
def Begins (c : Char) (after : List Char) : Piece → Prop
  | .operator op => (op = .not ∨ op.IsJunctor) ∧ op.symbol.toList <+: c :: after
  | .whitespace => isSpace c = true
  | .opening => c = '('
  | .closing => c = ')'
  | .letter d => isSymbolChar c = true ∧ c = d

/-- No token goes on with the character. -/
structure IsStray (c : Char) (after : List Char) : Prop where
  /-- It is no space. -/
  space : isSpace c = false
  /-- It is no bracket. -/
  bracket : c ≠ '(' ∧ c ≠ ')'
  /-- It is no character of an identifier. -/
  symbol : isSymbolChar c = false
  /-- No operator begins with it. -/
  operator : ∀ op ∈ [Operator.not, .and, .or], ¬op.symbol.toList <+: c :: after

theorem isSpace_iff : isSpace c = true ↔ c ∈ [' ', '\t', '\r', '\n'] := by
  simp [isSpace, or_assoc]

theorem begins_of_piece? (h : grammar.piece? ⟨before, c, after⟩ = some piece) :
    Begins c after piece := by
  rw [Grammar.piece?] at h
  split at h
  next op hop =>
    cases h
    obtain ⟨hknown, hwritten⟩ := Place.operator?_eq_some hop
    exact ⟨hknown, List.isPrefixOf_iff_prefix.1 hwritten⟩
  next =>
    split_ifs at h with hspace hopening hclosing hletter
    · cases h
      exact hspace
    · cases h
      exact beq_iff_eq.1 hopening
    · cases h
      exact beq_iff_eq.1 hclosing
    · cases h
      exact ⟨hletter, rfl⟩

theorem piece?_of_begins (h : Begins c after piece) (before : List Char) :
    grammar.piece? ⟨before, c, after⟩ = some piece := by
  cases piece with
  | operator op =>
      obtain ⟨hknown, rest, hrest⟩ := h
      rcases hknown with rfl | rfl | rfl
      · cases hrest
        rfl
      · cases hrest
        rfl
      · cases hrest
        rfl
  | whitespace =>
      have hc := isSpace_iff.1 h
      simp only [List.mem_cons, List.not_mem_nil, or_false] at hc
      rcases hc with rfl | rfl | rfl | rfl <;> rfl
  | opening =>
      cases h
      rfl
  | closing =>
      cases h
      rfl
  | letter d =>
      obtain ⟨hc, rfl⟩ := h
      exact piece?_of_isSymbolChar hc

theorem piece?_eq_some_iff :
    grammar.piece? ⟨before, c, after⟩ = some piece ↔ Begins c after piece :=
  ⟨begins_of_piece?, fun h => piece?_of_begins h before⟩

theorem begins_space (hc : isSpace c = true) : Begins c after .whitespace := hc

theorem begins_opening : Begins '(' after .opening := rfl

theorem begins_closing : Begins ')' after .closing := rfl

theorem begins_letter (hc : isSymbolChar c = true) : Begins c after (.letter c) := ⟨hc, rfl⟩

theorem begins_not : Begins '!' after (.operator .not) := ⟨Or.inl rfl, after, rfl⟩

theorem begins_and : Begins '&' ('&' :: after) (.operator .and) :=
  ⟨Or.inr (Or.inl rfl), after, rfl⟩

theorem begins_or : Begins '|' ('|' :: after) (.operator .or) :=
  ⟨Or.inr (Or.inr rfl), after, rfl⟩

theorem IsStray.not_begins (h : IsStray c after) : ¬Begins c after piece := by
  intro hbegins
  cases piece with
  | operator op =>
      obtain ⟨hknown, hwritten⟩ := hbegins
      refine h.operator op ?_ hwritten
      simpa [Operator.IsJunctor] using hknown
  | whitespace => exact absurd (h.space.symm.trans hbegins) Bool.false_ne_true
  | opening => exact h.bracket.1 hbegins
  | closing => exact h.bracket.2 hbegins
  | letter d => exact absurd (h.symbol.symm.trans hbegins.1) Bool.false_ne_true

/-- A character is stray, or a piece begins at it. -/
theorem isStray_or_begins (c : Char) (after : List Char) :
    IsStray c after ∨ ∃ piece, Begins c after piece := by
  refine or_iff_not_imp_right.2 fun h => ?_
  rw [not_exists] at h
  refine ⟨?_, ⟨h .opening, h .closing⟩, ?_, fun op hop hwritten => ?_⟩
  · exact Bool.eq_false_iff.2 (h .whitespace)
  · exact Bool.eq_false_iff.2 fun hc => h (.letter c) ⟨hc, rfl⟩
  · refine h (.operator op) ⟨?_, hwritten⟩
    simpa [Operator.IsJunctor] using hop

/-- The characters of an operator are those up to the end of its piece. -/
theorem Begins.symbol_append_drop {op : Operator} (h : Begins c after (.operator op)) :
    op.symbol.toList ++ after.drop (Piece.operator op).tail = c :: after := by
  obtain ⟨hknown, rest, hrest⟩ := h
  rcases hknown with rfl | rfl | rfl
  · cases hrest
    rfl
  · cases hrest
    rfl
  · cases hrest
    rfl

theorem Begins.cons_take {op : Operator} (h : Begins c after (.operator op)) :
    c :: after.take (Piece.operator op).tail = op.symbol.toList := by
  have happend : (c :: after.take (Piece.operator op).tail) ++ after.drop (Piece.operator op).tail =
      op.symbol.toList ++ after.drop (Piece.operator op).tail := by
    rw [List.cons_append, List.take_append_drop, h.symbol_append_drop]
  exact List.append_cancel_right happend

/-- The characters of a piece are there. -/
theorem Begins.length_take (h : Begins c after piece) :
    (after.take piece.tail).length = piece.tail := by
  cases piece with
  | whitespace | opening | closing | letter => rfl
  | operator op =>
      have hlength := congrArg List.length h.cons_take
      rw [List.length_cons, String.length_toList] at hlength
      show _ = op.width - 1
      rw [Operator.width, ← hlength, Nat.add_sub_cancel]

/-- A piece begins by its own characters, whatever comes next. -/
theorem Begins.of_take (h : Begins c after piece) (text : List Char) :
    Begins c (after.take piece.tail ++ text) piece := by
  cases piece with
  | whitespace | opening | closing | letter => exact h
  | operator op =>
      refine ⟨h.1, text, ?_⟩
      rw [← h.cons_take, List.cons_append]

theorem isSymbolChar_eq_false_of_all (h : text.all (!isSymbolChar ·) = true) :
    ∀ d ∈ text, isSymbolChar d = false := by
  intro d hd
  have hd := List.all_eq_true.1 h d hd
  rwa [Bool.not_eq_true'] at hd

/-- Only letters are of symbols. -/
theorem Begins.isSymbolChar_eq_false (h : Begins c after piece) (notLetter : ¬piece.IsLetter) :
    ∀ d ∈ c :: after.take piece.tail, isSymbolChar d = false := by
  cases piece with
  | letter d => exact absurd ⟨d, rfl⟩ notLetter
  | opening =>
      cases h
      exact List.forall_mem_singleton.2 rfl
  | closing =>
      cases h
      exact List.forall_mem_singleton.2 rfl
  | whitespace =>
      have hspace : ∀ d ∈ [' ', '\t', '\r', '\n'], isSymbolChar d = false :=
        isSymbolChar_eq_false_of_all (by decide)
      exact List.forall_mem_singleton.2 (hspace c (isSpace_iff.1 h))
  | operator op =>
      rw [h.cons_take]
      refine isSymbolChar_eq_false_of_all ?_
      rcases h.1 with rfl | rfl | rfl <;> decide

/-! ## Spellings -/

/-- There are only spaces. -/
def IsGap (gap : List Char) : Prop := ∀ c ∈ gap, isSpace c = true

/-- A space comes next. -/
def NextIsSpace (text : List Char) : Prop := ∃ c ∈ text.head?, isSpace c = true

/-- The token can stand in a plain text. -/
def IsToken : Token → Prop
  | .operator op => op = .not ∨ op.IsJunctor
  | .identifier name => isSymbol name.toList = true
  | .opening | .closing => True

/-- The text is the tokens in order, with spaces before, between and after them. -/
inductive IsSpelling : List Token → List Char → Prop where
  /-- No token. -/
  | nil {gap : List Char} (isGap : IsGap gap) : IsSpelling [] gap
  /-- A token with spaces before it, and after it if two identifiers are to be parted. -/
  | cons {gap text : List Char} {token : Token} {tokens : List Token} (isGap : IsGap gap)
      (isToken : IsToken token) (parted : ∀ t ∈ tokens.head?, token.Apart t ∨ NextIsSpace text)
      (next : IsSpelling tokens text) : IsSpelling (token :: tokens) (gap ++ (token.text ++ text))

namespace IsSpelling

/-- A spelling with the spaces of the token left out. -/
theorem ofToken (isToken : IsToken token)
    (parted : ∀ t ∈ tokens.head?, token.Apart t ∨ NextIsSpace text)
    (next : IsSpelling tokens text) : IsSpelling (token :: tokens) (token.text ++ text) :=
  @cons [] text token tokens nofun isToken parted next

/-- One more space in front. -/
theorem space (hc : isSpace c = true) (h : IsSpelling tokens text) :
    IsSpelling tokens (c :: text) := by
  cases h with
  | nil isGap => exact .nil (List.forall_mem_cons.2 ⟨hc, isGap⟩)
  | cons isGap isToken parted next =>
      exact .cons (List.forall_mem_cons.2 ⟨hc, isGap⟩) isToken parted next

/-- A spelling of an identifier begins with a space or with the identifier. -/
theorem nextIsSpace_or {name : String} (h : IsSpelling (.identifier name :: tokens) text) :
    NextIsSpace text ∨ ∃ c ∈ text.head?, isSymbolChar c = true := by
  cases h with
  | @cons gap text _ _ isGap isToken _ _ =>
      cases gap with
      | nil =>
          obtain ⟨c, rest, hname⟩ := List.exists_cons_of_ne_nil (ne_nil_of_isSymbol isToken)
          have hc := isSymbolChar_of_isSymbol isToken c (hname ▸ List.mem_cons_self)
          exact Or.inr ⟨c, by simp [Token.text, hname], hc⟩
      | cons c gap => exact Or.inl ⟨c, rfl, isGap c List.mem_cons_self⟩

end IsSpelling

/-! ## Spellings are read -/

theorem allLetters_iff {run : List Char} :
    grammar.AllLetters before after run ↔ ∀ c ∈ run, isSymbolChar c = true := by
  induction run generalizing before with
  | nil => exact iff_of_true trivial nofun
  | cons c run ih =>
      rw [Grammar.AllLetters, ih, List.forall_mem_cons, piece?_eq_some_iff, Begins,
        and_iff_left rfl]

theorem IsGap.lexes_append (h : IsGap gap)
    (hlexes : grammar.Lexes (gap.reverse ++ before) after tokens) :
    grammar.Lexes before (gap ++ after) tokens := by
  induction gap generalizing before with
  | nil => exact hlexes
  | cons c gap ih =>
      obtain ⟨hc, hgap⟩ := List.forall_mem_cons.1 h
      rw [List.reverse_cons, List.append_assoc] at hlexes
      exact .piece (piece?_of_begins (begins_space hc) _) nofun (ih hgap hlexes)

theorem not_nextIsLetter_of_space (h : NextIsSpace text) (before : List Char) :
    ¬grammar.NextIsLetter before text := by
  obtain ⟨c, hhead, hc⟩ := h
  obtain ⟨rest, rfl⟩ := List.head?_eq_some_iff.1 hhead
  intro hletter
  rw [Grammar.NextIsLetter, piece?_of_begins (begins_space hc)] at hletter
  cases hletter

/-- A token is read from its characters, if it is parted from what comes next. -/
theorem IsToken.lexes_cons (h : IsToken token)
    (parted : ∀ t ∈ tokens.head?, token.Apart t ∨ NextIsSpace text)
    (hnext : ∀ before, grammar.Lexes before text tokens) (before : List Char) :
    grammar.Lexes before (token.text ++ text) (token :: tokens) := by
  cases token with
  | opening => exact .piece (piece?_of_begins begins_opening _) nofun (hnext _)
  | closing => exact .piece (piece?_of_begins begins_closing _) nofun (hnext _)
  | operator op =>
      rcases h with rfl | rfl | rfl
      · exact .piece (piece?_of_begins begins_not _) nofun (hnext _)
      · exact .piece (piece?_of_begins begins_and _) nofun (hnext _)
      · exact .piece (piece?_of_begins begins_or _) nofun (hnext _)
  | identifier name =>
      have hends : ¬grammar.NextIsLetter (name.toList.reverse ++ before) text := by
        by_cases hspace : NextIsSpace text
        · exact not_nextIsLetter_of_space hspace _
        · refine (hnext _).not_nextIsLetter fun next hhead => ?_
          exact (parted _ hhead).resolve_right hspace name next rfl rfl
      have hlexes := Grammar.Lexes.identifier (ne_nil_of_isSymbol h)
        (allLetters_iff.2 (isSymbolChar_of_isSymbol h)) hends (hnext _)
      rwa [String.ofList_toList] at hlexes

theorem IsSpelling.lexes (h : IsSpelling tokens text) (before : List Char) :
    grammar.Lexes before text tokens := by
  induction h generalizing before with
  | @nil gap isGap =>
      rw [← List.append_nil gap]
      exact isGap.lexes_append .nil
  | cons isGap isToken parted next ih =>
      exact isGap.lexes_append (isToken.lexes_cons parted ih _)

/-! ## What is read is spelled -/

/-- Only identifiers have to be parted. -/
theorem parted_of_ne (hname : ∀ name, token ≠ .identifier name) :
    ∀ t ∈ tokens.head?, token.Apart t ∨ NextIsSpace text :=
  fun _ _ => Or.inl fun name _ heq => absurd heq (hname name)

theorem isSpelling_of_lexes (h : grammar.Lexes before text tokens) : IsSpelling tokens text := by
  induction h with
  | nil => exact .nil nofun
  | @piece before rest c piece tokens isPiece notLetter next ih =>
      have hbegins := begins_of_piece? isPiece
      cases piece with
      | letter d => exact absurd ⟨d, rfl⟩ notLetter
      | whitespace => exact ih.space hbegins
      | opening =>
          cases hbegins
          exact ih.ofToken trivial (parted_of_ne nofun)
      | closing =>
          cases hbegins
          exact ih.ofToken trivial (parted_of_ne nofun)
      | operator op =>
          rw [← hbegins.symbol_append_drop]
          exact ih.ofToken hbegins.1 (parted_of_ne nofun)
  | @identifier before run rest tokens nonempty letters ends next ih =>
      have hrun := allLetters_iff.1 letters
      have hspelling : IsSpelling (.identifier (String.ofList run) :: tokens)
          ((Token.identifier (String.ofList run)).text ++ rest) := by
        refine ih.ofToken ?_ fun t ht => ?_
        · simpa [IsToken, isSymbol, nonempty] using hrun
        · cases t with
          | opening | closing | operator op => exact Or.inl nofun
          | identifier name =>
              obtain ⟨tokens, rfl⟩ := List.head?_eq_some_iff.1 ht
              refine Or.inr (ih.nextIsSpace_or.resolve_right ?_)
              rintro ⟨c, hhead, hc⟩
              obtain ⟨rest, rfl⟩ := List.head?_eq_some_iff.1 hhead
              exact ends (piece?_of_begins (begins_letter hc) _)
      rwa [Token.text, String.toList_ofList] at hspelling

/-! ## What a text spells -/

namespace IsSpelling

/-- A letter in front, where no identifier comes next. -/
theorem letter (hc : isSymbolChar c = true)
    (parted : ∀ t ∈ tokens.head?, (∀ name, t ≠ .identifier name) ∨ NextIsSpace text)
    (h : IsSpelling tokens text) :
    IsSpelling (.identifier (String.ofList [c]) :: tokens) (c :: text) := by
  have hletter : IsToken (.identifier (String.ofList [c])) := by simp [IsToken, isSymbol, hc]
  have hspelling := h.ofToken hletter fun t ht => (parted t ht).imp_left fun hname _ y _ => hname y
  rwa [Token.text, String.toList_ofList] at hspelling

/-- A letter in front of an identifier, which it makes longer. -/
theorem longer {name : String} (hc : isSymbolChar c = true)
    (isToken : IsToken (.identifier name))
    (parted : ∀ t ∈ tokens.head?, (Token.identifier name).Apart t ∨ NextIsSpace text)
    (h : IsSpelling tokens text) :
    IsSpelling (.identifier (String.ofList (c :: name.toList)) :: tokens)
      (c :: (name.toList ++ text)) := by
  have hlonger : IsToken (.identifier (String.ofList (c :: name.toList))) := by
    have hname := isSymbolChar_of_isSymbol isToken
    simp only [IsToken, isSymbol, String.toList_ofList, List.all_cons, hc]
    simpa using hname
  have hspelling := h.ofToken hlonger fun t ht =>
    (parted t ht).imp_left fun happart _ y _ => happart name y rfl
  rwa [Token.text, String.toList_ofList] at hspelling

theorem exists_letter (hc : isSymbolChar c = true) (h : IsSpelling tokens text) :
    ∃ tokens', IsSpelling tokens' (c :: text) := by
  cases h with
  | nil isGap => exact ⟨_, .letter hc (fun _ ht => by cases ht) (.nil isGap)⟩
  | @cons gap text token tokens isGap isToken parted next =>
      cases gap with
      | cons d gap =>
          have hspace : NextIsSpace (d :: gap ++ (token.text ++ text)) :=
            ⟨d, rfl, isGap d List.mem_cons_self⟩
          exact ⟨_, .letter hc (fun _ _ => Or.inr hspace) (.cons isGap isToken parted next)⟩
      | nil =>
          cases token with
          | identifier name => exact ⟨_, .longer hc isToken parted next⟩
          | opening | closing | operator op =>
              refine ⟨_, .letter hc (fun t ht => Or.inl fun name => ?_)
                (.cons isGap isToken parted next)⟩
              cases ht
              exact nofun

/-- A spelling with one more piece in front is a spelling. -/
theorem exists_cons (hbegins : Begins c after piece) (h : IsSpelling tokens text) :
    ∃ tokens', IsSpelling tokens' (c :: (after.take piece.tail ++ text)) := by
  cases piece with
  | letter d => exact h.exists_letter hbegins.1
  | whitespace => exact ⟨tokens, h.space hbegins⟩
  | opening =>
      cases hbegins
      exact ⟨.opening :: tokens, h.ofToken trivial (parted_of_ne nofun)⟩
  | closing =>
      cases hbegins
      exact ⟨.closing :: tokens, h.ofToken trivial (parted_of_ne nofun)⟩
  | operator op =>
      have isToken : IsToken (.operator op) := hbegins.1
      rw [← List.cons_append, hbegins.cons_take]
      exact ⟨.operator op :: tokens, h.ofToken isToken (parted_of_ne nofun)⟩

end IsSpelling

/-- A text spells tokens, or it does so up to a stray character. -/
theorem isSpelling_or_stray (text : List Char) :
    (∃ tokens, IsSpelling tokens text) ∨ ∃ left c right tokens,
      text = left ++ c :: right ∧ IsSpelling tokens left ∧ IsStray c right := by
  induction hlength : text.length using Nat.strongRecOn generalizing text with
  | ind length ih =>
  subst hlength
  cases text with
  | nil => exact Or.inl ⟨[], .nil nofun⟩
  | cons c rest =>
      rcases isStray_or_begins c rest with hstray | ⟨piece, hbegins⟩
      · exact Or.inr ⟨[], c, rest, [], rfl, .nil nofun, hstray⟩
      -- What comes after the piece decides.
      · have hshorter : (rest.drop piece.tail).length < (c :: rest).length := by
          rw [List.length_drop, List.length_cons]
          omega
        rw [← List.take_append_drop piece.tail rest]
        rcases ih (rest.drop piece.tail).length hshorter (rest.drop piece.tail) rfl with
          ⟨tokens, hspelling⟩ | ⟨left, d, right, tokens, hrest, hspelling, hstray⟩
        · exact Or.inl (hspelling.exists_cons hbegins)
        · obtain ⟨tokens', hleft⟩ := hspelling.exists_cons hbegins
          refine Or.inr ⟨_, d, right, tokens', ?_, hleft, hstray⟩
          rw [hrest, List.cons_append, List.append_assoc]

/-! ## Faults -/

/-- A fault after the text is a fault of the whole. -/
def KeepsFaults (text : List Char) : Prop :=
  ∀ before rest cause, grammar.piecesFrom (text.reverse ++ before) 0 rest = .error cause →
    grammar.piecesFrom before 0 (text ++ rest) = .error cause

namespace KeepsFaults

theorem nil : KeepsFaults [] := fun _ _ _ h => h

theorem append (hx : KeepsFaults before) (hy : KeepsFaults after) :
    KeepsFaults (before ++ after) := by
  intro left rest cause h
  rw [List.reverse_append, List.append_assoc] at h
  rw [List.append_assoc]
  exact hx _ _ _ (hy _ _ _ h)

/-- The characters of a piece, whatever comes next. -/
theorem ofPiece (hbegins : ∀ rest, Begins c (after ++ rest) piece)
    (htail : after.length = piece.tail) : KeepsFaults (c :: after) := by
  intro before rest cause h
  rw [List.cons_append, Grammar.piecesFrom, piece?_of_begins (hbegins rest)]
  rw [List.reverse_cons, List.append_assoc, List.singleton_append] at h
  simp only
  rw [Grammar.piecesFrom_eq_drop, ← htail, List.take_left, List.drop_left, h]
  rfl

theorem ofGap (h : IsGap gap) : KeepsFaults gap := by
  induction gap with
  | nil => exact nil
  | cons c gap ih =>
      obtain ⟨hc, hgap⟩ := List.forall_mem_cons.1 h
      have hspace : KeepsFaults [c] := ofPiece (fun _ => begins_space hc) rfl
      exact hspace.append (ih hgap)

theorem ofLetters (h : ∀ c ∈ text, isSymbolChar c = true) : KeepsFaults text := by
  induction text with
  | nil => exact nil
  | cons c text ih =>
      obtain ⟨hc, htext⟩ := List.forall_mem_cons.1 h
      have hletter : KeepsFaults [c] := ofPiece (fun _ => begins_letter hc) rfl
      exact hletter.append (ih htext)

theorem ofToken (h : IsToken token) : KeepsFaults token.text := by
  cases token with
  | opening => exact ofPiece (fun _ => begins_opening) rfl
  | closing => exact ofPiece (fun _ => begins_closing) rfl
  | identifier name => exact ofLetters (isSymbolChar_of_isSymbol h)
  | operator op =>
      rcases h with rfl | rfl | rfl
      · exact ofPiece (fun _ => begins_not) rfl
      · exact ofPiece (fun _ => begins_and) rfl
      · exact ofPiece (fun _ => begins_or) rfl

theorem ofSpelling (h : IsSpelling tokens text) : KeepsFaults text := by
  induction h with
  | nil isGap => exact ofGap isGap
  | cons isGap isToken _ _ ih => exact (ofGap isGap).append ((ofToken isToken).append ih)

end KeepsFaults

theorem IsStray.piecesFrom (h : IsStray c after) (before : List Char) :
    grammar.piecesFrom before 0 (c :: after) = .error (.invalidCharacter before.length c) := by
  rw [Grammar.piecesFrom]
  cases hpiece : grammar.piece? ⟨before, c, after⟩ with
  | none => rfl
  | some piece => exact absurd (begins_of_piece? hpiece) h.not_begins

/-! ## The lexer -/

theorem tokens_eq_ok_iff_isSpelling {text : String} :
    grammar.tokens text = .ok tokens ↔ IsSpelling tokens text.toList := by
  rw [Grammar.tokens_eq_ok_iff]
  exact ⟨isSpelling_of_lexes, fun h => h.lexes []⟩

theorem tokens_of_isStray {text : String} (hspelling : IsSpelling tokens before)
    (hstray : IsStray c after) (htext : text.toList = before ++ c :: after) :
    grammar.tokens text = .error (.invalidCharacter before.length c) := by
  have hfault := KeepsFaults.ofSpelling hspelling [] (c :: after) _ (hstray.piecesFrom _)
  rw [List.append_nil, List.length_reverse] at hfault
  rw [Grammar.tokens, htext, hfault]
  rfl

/-- The lexer reads tokens exactly from their spellings.  From any other text it reports the
first character that is stray, with the number of characters before it, and these are a
spelling. -/
theorem tokens_eq_iff_isSpelling (text : String) :
    (∀ tokens, grammar.tokens text = .ok tokens ↔ IsSpelling tokens text.toList) ∧
    ∀ cause, grammar.tokens text = .error cause ↔
      ∃ before c after, text.toList = before ++ c :: after ∧
        cause = .invalidCharacter before.length c ∧
        (∃ tokens, grammar.tokens (String.ofList before) = .ok tokens) ∧ IsStray c after := by
  refine ⟨fun tokens => tokens_eq_ok_iff_isSpelling, fun cause => ⟨fun h => ?_, ?_⟩⟩
  · rcases isSpelling_or_stray text.toList with
      ⟨tokens, hspelling⟩ | ⟨before, c, after, tokens, htext, hspelling, hstray⟩
    · rw [tokens_eq_ok_iff_isSpelling.2 hspelling] at h
      cases h
    · rw [tokens_of_isStray hspelling hstray htext] at h
      cases h
      refine ⟨before, c, after, htext, rfl, ⟨tokens, ?_⟩, hstray⟩
      rwa [tokens_eq_ok_iff_isSpelling, String.toList_ofList]
  · rintro ⟨before, c, after, htext, rfl, ⟨tokens, htokens⟩, hstray⟩
    rw [tokens_eq_ok_iff_isSpelling, String.toList_ofList] at htokens
    exact tokens_of_isStray htokens hstray htext

end Presence.Plain
