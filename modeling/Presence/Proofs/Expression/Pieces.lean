import Presence.Expression.Lexer
import Presence.Proofs.Expression.CanonicalTokens

/-!
# Pieces of tristate expressions

Most characters of a tristate expression are the same piece wherever they stand.  Only two
are not: an exclamation mark is a letter if an equals sign comes next, and a blank is a
letter if it is inside of a comparison.

A blank is inside of a comparison if the nearest character on its left that is no blank is
an equals sign, or if the operator of a comparison comes next on its right
(`insideComparison_iff`).  The right side is looked at through all blanks, so a blank in
front makes no difference to it (`beginsMark_blank`).
-/

namespace Presence

/-- An operator is found where it is written. -/
theorem Place.operator?_eq_some {p : Place} {op : Operator} (h : p.operator? = some op) :
    (op = .not ∨ op.IsJunctor) ∧ p.startsWith op.symbol = true := by
  rw [operator?] at h
  have hmem : op ∈ [Operator.not, .and, .or] := List.mem_of_find?_eq_some h
  have hwritten := List.find?_some h
  exact ⟨by simpa [Operator.IsJunctor] using hmem, hwritten⟩

/-- The characters that an operator reaches over are its own. -/
theorem Place.mem_symbol_of_startsWith {p : Place} {op : Operator}
    (h : p.startsWith op.symbol = true) {c : Char} (hc : c ∈ p.after.take (op.width - 1)) :
    c ∈ op.symbol.toList := by
  obtain ⟨rest, hrest⟩ := List.isPrefixOf_iff_prefix.1 h
  have hlength : op.symbol.toList.length = op.width := String.length_toList
  cases hsymbol : op.symbol.toList with
  | nil =>
      rw [hsymbol] at hlength
      rw [← hlength] at hc
      cases hc
  | cons d symbol =>
      rw [hsymbol] at hrest hlength
      have hafter : symbol ++ rest = p.after := (List.cons.inj hrest).2
      rw [← hafter, ← hlength, List.length_cons, Nat.add_sub_cancel, List.take_left] at hc
      exact List.mem_cons_of_mem _ hc

namespace Tristate

/-! ## Inside of comparisons -/

/-- The nearest character of a side that is no blank. -/
def nearest? (side : List Char) : Option Char := side.find? fun c => !isBlank c

/-- The operator of a comparison comes next, after blanks at most. -/
def BeginsMark (after : List Char) : Prop :=
  ['='] <+: after.dropWhile isBlank ∨ ['!', '='] <+: after.dropWhile isBlank

variable {before after side : List Char} {c : Char}

theorem nearest?_blank (h : isBlank c = true) : nearest? (c :: side) = nearest? side :=
  List.find?_cons_of_neg (by rw [h]; exact Bool.false_ne_true)

theorem nearest?_cons (h : isBlank c = false) : nearest? (c :: side) = some c :=
  List.find?_cons_of_pos (by rw [h]; rfl)

theorem nearest?_cons_ne {d : Char} (h : isBlank c = false) (hne : c ≠ d) :
    nearest? (c :: side) ≠ some d := by
  rw [nearest?_cons h]
  exact fun heq => hne (Option.some.inj heq)

theorem nearest?_of_head? (h : side.head? = some c) (hc : isBlank c = false) :
    nearest? side = some c := by
  obtain ⟨rest, rfl⟩ := List.head?_eq_some_iff.1 h
  exact nearest?_cons hc

theorem nearest?_eq (side : List Char) :
    nearest? side = (side.filter fun c => !isBlank c).head? :=
  List.head?_filter.symm

theorem nearest?_reverse (side : List Char) :
    nearest? side.reverse = (side.filter fun c => !isBlank c).getLast? := by
  rw [nearest?_eq, List.filter_reverse, List.head?_reverse]

theorem nearest?_append (h : nearest? side = some c) (more : List Char) :
    nearest? (side ++ more) = some c := by
  rw [nearest?, List.find?_append, ← nearest?, h, Option.some_or]

theorem not_beginsMark_nil : ¬BeginsMark [] := by
  rintro (h | h)
  · cases List.prefix_nil.1 h
  · cases List.prefix_nil.1 h

theorem beginsMark_blank (h : isBlank c = true) : BeginsMark (c :: after) ↔ BeginsMark after := by
  rw [BeginsMark, List.dropWhile_cons_of_pos h]
  rfl

theorem beginsMark_cons (h : isBlank c = false) :
    BeginsMark (c :: after) ↔ c = '=' ∨ c = '!' ∧ after.head? = some '=' := by
  have hdrop : (c :: after).dropWhile isBlank = c :: after :=
    List.dropWhile_cons_of_neg (by rw [h]; exact Bool.false_ne_true)
  rw [BeginsMark, hdrop]
  cases after with
  | nil => simp [eq_comm]
  | cons d after => simp [eq_comm]

theorem beginsMark_of_head? (h : after.head? = some '=') : BeginsMark after := by
  obtain ⟨rest, rfl⟩ := List.head?_eq_some_iff.1 h
  exact (beginsMark_cons rfl).2 (Or.inl rfl)

theorem not_beginsMark_cons (h : isBlank c = false) (hequals : c ≠ '=') (hmark : c ≠ '!') :
    ¬BeginsMark (c :: after) := fun hbegins =>
  ((beginsMark_cons h).1 hbegins).elim hequals fun hnot => hmark hnot.1

theorem insideComparison_iff {p : Place} :
    insideComparison p = true ↔ nearest? p.before = some '=' ∨ BeginsMark p.after := by
  rw [insideComparison, Bool.or_eq_true, beq_iff_eq, nearest?, BeginsMark]
  refine or_congr_right ?_
  split
  next rest heq => simp [heq]
  next rest heq => simp [heq]
  next hequals hmark =>
    refine iff_of_false Bool.false_ne_true ?_
    rintro (⟨rest, h⟩ | ⟨rest, h⟩)
    · exact hequals rest h.symm
    · exact hmark rest h.symm

/-! ## Pieces -/

/-- A letter wherever it stands. -/
def IsPlainLetter (c : Char) : Prop := isSymbolChar c = true ∨ c ∈ ['=', '"', '[', ']']

instance : DecidablePred IsPlainLetter := fun c =>
  inferInstanceAs (Decidable (isSymbolChar c = true ∨ c ∈ ['=', '"', '[', ']']))

theorem isPlainLetter_of_isSymbol {text : List Char} (h : isSymbol text = true) :
    ∀ c ∈ text, IsPlainLetter c := fun c hc => Or.inl (isSymbolChar_of_isSymbol h c hc)

theorem isPlainLetter_of_all {text : List Char} (h : text.all (IsPlainLetter ·) = true) :
    ∀ c ∈ text, IsPlainLetter c := fun c hc => of_decide_eq_true (List.all_eq_true.1 h c hc)

variable (stem : String)

theorem IsPlainLetter.ne {d : Char} (h : IsPlainLetter c) (hd : ¬IsPlainLetter d) : c ≠ d := by
  rintro rfl
  exact hd h

theorem not_isPlainLetter {d : Char} (hsymbol : isSymbolChar d = false)
    (hmem : d ∉ ['=', '"', '[', ']']) : ¬IsPlainLetter d := by
  rw [IsPlainLetter, hsymbol]
  exact not_or.2 ⟨Bool.false_ne_true, hmem⟩

theorem isBlank_eq_false (h : IsPlainLetter c) : isBlank c = false := by
  have hspace : c ≠ ' ' := h.ne (not_isPlainLetter (by decide) (by decide))
  have htab : c ≠ '\t' := h.ne (not_isPlainLetter (by decide) (by decide))
  simp [isBlank, hspace, htab]

theorem piece?_letter (h : IsPlainLetter c) :
    (grammar stem).piece? ⟨before, c, after⟩ = some (.letter c) := by
  have hmark : c ≠ '!' := h.ne (not_isPlainLetter (by decide) (by decide))
  have hand : c ≠ '&' := h.ne (not_isPlainLetter (by decide) (by decide))
  have hor : c ≠ '|' := h.ne (not_isPlainLetter (by decide) (by decide))
  have hopening : c ≠ '(' := h.ne (not_isPlainLetter (by decide) (by decide))
  have hclosing : c ≠ ')' := h.ne (not_isPlainLetter (by decide) (by decide))
  have hop : operator? ⟨before, c, after⟩ = none := by
    simp [operator?, hmark, Place.operator?, Place.startsWith, Operator.not, Operator.and,
      Operator.or, hmark.symm, hand.symm, hor.symm]
  have hchar : (isComparisonChar c || isSymbolChar c) = true := by
    rcases h with h | h
    · rw [h, Bool.or_true]
    · simp only [List.mem_cons, List.not_mem_nil, or_false] at h
      rcases h with rfl | rfl | rfl | rfl <;> rfl
  simp only [Grammar.piece?, grammar, hop, isBlank_eq_false h, Bool.false_and, Bool.or_false,
    beq_eq_false_iff_ne.2 hopening, beq_eq_false_iff_ne.2 hclosing, hchar, Bool.false_eq_true,
    ↓reduceIte]

theorem piece?_opening : (grammar stem).piece? ⟨before, '(', after⟩ = some .opening := rfl

theorem piece?_closing : (grammar stem).piece? ⟨before, ')', after⟩ = some .closing := rfl

theorem piece?_not (h : after.head? ≠ some '=') :
    (grammar stem).piece? ⟨before, '!', after⟩ = some (.operator .not) := by
  have hop : operator? ⟨before, '!', after⟩ = some .not := if_neg fun hmark => h hmark.2
  simp only [Grammar.piece?, grammar, hop]

theorem piece?_mark (h : after.head? = some '=') :
    (grammar stem).piece? ⟨before, '!', after⟩ = some (.letter '!') := by
  have hop : operator? ⟨before, '!', after⟩ = none := if_pos ⟨rfl, h⟩
  simp only [Grammar.piece?, grammar, hop]
  rfl

theorem piece?_junctor {op : Operator} (hop : op.IsJunctor) :
    ∃ c, op.symbol.toList = [c, c] ∧ isBlank c = false ∧ c ≠ '=' ∧ c ≠ '!' ∧
      ∀ before rest, (grammar stem).piece? ⟨before, c, c :: rest⟩ = some (.operator op) := by
  rcases hop with rfl | rfl
  · exact ⟨'&', rfl, rfl, by decide, by decide, fun _ _ => rfl⟩
  · exact ⟨'|', rfl, rfl, by decide, by decide, fun _ _ => rfl⟩

/-- The operators of tristate expressions are those of plain ones. -/
theorem operator?_eq_some {p : Place} {op : Operator} (h : operator? p = some op) :
    (op = .not ∨ op.IsJunctor) ∧ p.startsWith op.symbol = true := by
  rw [operator?] at h
  split at h
  · cases h
  · exact Place.operator?_eq_some h

theorem operator?_blank (h : isBlank c = true) : operator? ⟨before, c, after⟩ = none := by
  have hc : c = ' ' ∨ c = '\t' := by simpa [isBlank] using h
  rcases hc with rfl | rfl <;> rfl

theorem piece?_blank (h : isBlank c = true) (hinside : insideComparison ⟨before, c, after⟩ = true) :
    (grammar stem).piece? ⟨before, c, after⟩ = some (.letter c) := by
  have hc : c = ' ' ∨ c = '\t' := by simpa [isBlank] using h
  simp only [Grammar.piece?, grammar, operator?_blank h, h, hinside]
  rcases hc with rfl | rfl <;> rfl

theorem piece?_gap (h : isBlank c = true) (hbefore : nearest? before ≠ some '=')
    (hafter : ¬BeginsMark after) :
    (grammar stem).piece? ⟨before, c, after⟩ = some .whitespace := by
  have hinside : insideComparison ⟨before, c, after⟩ = false :=
    Bool.eq_false_iff.2 fun hin => (insideComparison_iff.1 hin).elim hbefore hafter
  simp only [Grammar.piece?, grammar, operator?_blank h, h, hinside]
  rfl

end Tristate

end Presence
