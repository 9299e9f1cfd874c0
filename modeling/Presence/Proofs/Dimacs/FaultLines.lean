import Presence.Proofs.Dimacs.Refusals

/-!
# The lines of faults

A fault of a text is about one of its items: a byte that cannot stand where it does, a numeral that
is too large, a naming comment or the problem line.  It should report the line in which that item
begins.

The reader counts a line feed before it looks at it.  So the line is right for a numeral, and for
an item that a carriage return or the end of the text ends.  It is one too many for a line of text
that a line feed ends, and for a line feed that is itself the fault (`Reader.reported_line_eq`).

What the reader is in the middle of is always the end of what it has read (`Reader.Ends`), and it
counts the line feeds of that (`Reader.HasRead`).  So at a fault the item can be read off the state.
-/

namespace Presence

open Dimacs

namespace Dimacs

open Reader (isLineEnd digit?)

/-! ## Items -/

/-- What a fault is about. -/
inductive Item where
  /-- A byte that cannot stand where it does. -/
  | byte (b : UInt8)
  /-- A numeral, to its first digit that makes it too large. -/
  | numeral (word : List UInt8)
  /-- A comment, with its bytes after the `c`. -/
  | comment (text : List UInt8)
  /-- A problem line, with its bytes after the `p`. -/
  | problem (text : List UInt8)
  deriving DecidableEq, Repr

/-- The bytes of an item. -/
def Item.bytes : Item → List UInt8
  | byte b => [b]
  | numeral word => word
  | comment text => 99 :: text
  | problem text => 112 :: text

/-- A line can begin after the bytes. -/
def IsLineStart (before : List UInt8) : Prop := ∀ b ∈ before.getLast?, isLineEnd b = true

/-- A word can begin after the bytes. -/
def IsWordStart (before : List UInt8) : Prop :=
  ∀ b ∈ before.getLast?, b = 32 ∨ isLineEnd b = true

/-- The text is the whole rest of a line. -/
def IsRestOfLine (text rest : List UInt8) : Prop :=
  (∀ b ∈ text, isLineEnd b = false) ∧ ∀ b ∈ rest.head?, isLineEnd b = true

/-- The item is not part of a longer one. -/
def Item.IsWhole (before rest : List UInt8) : Item → Prop
  | byte _ => True
  | numeral _ => IsWordStart before
  | comment text | problem text => IsLineStart before ∧ IsRestOfLine text rest

/-- A line feed ends the item, or is the item. -/
def Item.isFed (rest : List UInt8) : Item → Bool
  | byte b => b == 10
  | numeral _ => false
  | comment _ | problem _ => rest.head? == some 10

/-- The number of the line after some bytes. -/
def lineAfter (bytes : List UInt8) : Nat := 1 + bytes.count 10

end Dimacs

/-- The line that a fault reports. -/
def DimacsError.line? : DimacsError → Option Nat
  | unexpectedInput line _ | numberTooLarge line _ _ | invalidHeader line _
  | invalidNaming line _ | unterminatedClause line => some line
  | variableCount .. | clauseCount .. | previousError => none

/-- The same fault in another line. -/
def DimacsError.inLine (line : Nat) : DimacsError → DimacsError
  | unexpectedInput _ character => unexpectedInput line character
  | numberTooLarge _ index finalDigit => numberTooLarge line index finalDigit
  | invalidHeader _ text => invalidHeader line text
  | invalidNaming _ name => invalidNaming line name
  | unterminatedClause _ => unterminatedClause line
  | cause => cause

theorem DimacsError.inLine_of_line? {cause : DimacsError} {line : Nat}
    (h : cause.line? = some line) : cause.inLine line = cause := by
  cases cause <;> cases h <;> rfl

/-- The fault is about the item, with the stem before names. -/
inductive DimacsError.IsAbout (stem : String) : DimacsError → Item → Prop where
  | byte {line : Nat} {b : UInt8} :
      IsAbout stem (unexpectedInput line (Char.ofNat b.toNat)) (.byte b)
  | numeral {line index d : Nat} {word : List UInt8} (hword : IsNumeral word)
      (hvalue : wordValue word = index * 10 + d) (hindex : index ≤ largestVariable)
      (hlarge : largestVariable < wordValue word) :
      IsAbout stem (numberTooLarge line index d) (.numeral word)
  | namedNumber {line index d k : Nat} {text : List UInt8} {name : String}
      (hnaming : lineNaming? (99 :: text) = some (k, name)) (hlarge : largestVariable < k) :
      IsAbout stem (numberTooLarge line index d) (.comment text)
  | namedZero {line : Nat} {text : List UInt8} {name : String}
      (hnaming : lineNaming? (99 :: text) = some (0, name)) :
      IsAbout stem (invalidNaming line (stem ++ name)) (.comment text)
  | declaredNumber {line : Nat} {text : List UInt8} {h : Header}
      (hheader : lineHeader? (112 :: text) = some h) (hlarge : largestVariable < h.variableCount) :
      IsAbout stem (numberTooLarge line (h.variableCount / 10) (h.variableCount % 10))
        (.problem text)
  | header {line : Nat} {text : List UInt8} (hheader : lineHeader? (112 :: text) = none) :
      IsAbout stem (invalidHeader line (Utf8.decodeReplacing (112 :: text))) (.problem text)

namespace Reader

variable {r : Reader} {stem : String} {bytes before text : List UInt8} {b : UInt8}
  {cause : DimacsError}

/-! ## Counting lines -/

/-- The readers are in the same line and put the same stem before names. -/
def SameLine (r r' : Reader) : Prop := r'.line = r.line ∧ r'.stem = r.stem

theorem sameLine_endNumeral (r : Reader) (pending : Numeral) :
    SameLine r (r.endNumeral pending) := by
  rw [endNumeral_eq]
  exact ⟨rfl, rfl⟩

theorem sameLine_endNaming (r : Reader) (text : List UInt8) : SameLine r (r.endNaming text) := by
  simp only [endNaming]
  split
  · exact ⟨rfl, rfl⟩
  · split
    · exact ⟨rfl, rfl⟩
    · split
      · exact ⟨rfl, rfl⟩
      · exact ⟨rfl, rfl⟩

theorem sameLine_endProblem (r : Reader) (text : List UInt8) : SameLine r (r.endProblem text) := by
  simp only [endProblem]
  split
  · exact ⟨rfl, rfl⟩
  · split
    · exact ⟨rfl, rfl⟩
    · exact ⟨rfl, rfl⟩

theorem sameLine_clauseByte (r : Reader) (atStart : Bool) (pending : Numeral) (b : UInt8) :
    SameLine r (r.clauseByte atStart pending b) := by
  have hdigit : ∀ negative value d, SameLine r (r.digit negative value d) := by
    intro negative value d
    simp only [digit]
    split
    · exact ⟨rfl, rfl⟩
    · exact ⟨rfl, rfl⟩
  unfold clauseByte
  cases digit? b with
  | some d => cases pending <;> exact hdigit _ _ _
  | none =>
      simp only
      split
      · exact ⟨rfl, rfl⟩
      · split
        · exact sameLine_endNumeral r pending
        · split
          · exact ⟨rfl, rfl⟩
          · split
            · exact ⟨rfl, rfl⟩
            · exact ⟨rfl, rfl⟩

theorem sameLine_modeByte (r : Reader) (b : UInt8) : SameLine r (r.modeByte b) := by
  rw [modeByte]
  cases r.mode with
  | lineStart => exact sameLine_clauseByte r _ _ _
  | clauses pending => exact sameLine_clauseByte r _ _ _
  | naming text =>
      simp only
      split
      · exact sameLine_endNaming r text
      · exact ⟨rfl, rfl⟩
  | remark =>
      simp only
      split
      · exact ⟨rfl, rfl⟩
      · exact ⟨rfl, rfl⟩
  | problem text =>
      simp only
      split
      · exact sameLine_endProblem r text
      · exact ⟨rfl, rfl⟩

/-- The reader in the line to which a byte counts. -/
def countFeed (r : Reader) (b : UInt8) : Reader := { r with line := r.line + [b].count 10 }

/-- A byte is read in the line to which it counts. -/
theorem step_eq_countFeed (hfault : r.fault = none) (b : UInt8) :
    r.step b = (r.countFeed b).modeByte b := by
  rw [step_eq hfault]
  by_cases hb : b = 10
  · rw [if_pos hb, hb]
    rfl
  · rw [if_neg hb, countFeed, List.count_eq_zero.2 (by simpa using Ne.symm hb)]
    rfl

/-! ## What the reader is in the middle of -/

/-- The bytes that have been read end with what the reader is in the middle of. -/
def Ends (bytes : List UInt8) : Mode → Prop
  | .lineStart => IsLineStart bytes
  | .clauses pending =>
      ∃ before word, bytes = before ++ word ∧ IsWordStart before ∧ IsBegun word ∧
        wordNumeral word = pending
  | .naming text =>
      ∃ before, bytes = before ++ 99 :: text.reverse ∧ IsLineStart before ∧
        ∀ b ∈ text, isLineEnd b = false
  | .remark => True
  | .problem text =>
      ∃ before rest, bytes = before ++ 112 :: rest ∧ text.reverse = 112 :: rest ∧
        IsLineStart before ∧ ∀ b ∈ rest, isLineEnd b = false

theorem isLineStart_append (hb : isLineEnd b = true) : IsLineStart (bytes ++ [b]) := by
  simpa [IsLineStart] using hb

theorem IsLineStart.isWordStart (h : IsLineStart bytes) : IsWordStart bytes :=
  fun b hb => Or.inr (h b hb)

variable {atStart : Bool} {pending : Numeral} {negative : Bool} {value d : Nat}
  {word : List UInt8}

theorem clauseByte_digit (hb : digit? b = some d)
    (hpending : numeral? (.clauses pending) = some (negative, value)) :
    r.clauseByte atStart pending b = r.digit negative value d := by
  cases pending <;> cases hpending <;> simp only [clauseByte, hb]

/-- Outside lines of text a byte goes on with the word in progress, or it ends the word and begins
something else. -/
theorem ends_clauseByte (hbefore : IsWordStart before) (hword : IsBegun word)
    (hstart : atStart = true → word = [] ∧ IsLineStart before)
    (hread : (r.clauseByte atStart (wordNumeral word) b).fault = none) :
    Ends (before ++ word ++ [b]) (r.clauseByte atStart (wordNumeral word) b).mode := by
  cases hd : digit? b with
  | some d =>
      rw [clauseByte_digit hd (numeral?_wordNumeral word)] at hread ⊢
      by_cases hle : wordValue word * 10 + d ≤ largestVariable
      · rw [digit_eq hle]
        exact ⟨before, word ++ [b], List.append_assoc .., hbefore, hword.append_digit hd hle,
          wordNumeral_append_digit hd⟩
      · rw [digit, if_neg hle] at hread
        cases hread
  | none =>
      rcases clauseByte_cases hd hread with ⟨rfl, habsent, h⟩ | ⟨rfl, -, h⟩ | ⟨hend, -, h⟩ |
        ⟨rfl, hatStart, h⟩ | ⟨rfl, hatStart, -, h⟩
      · cases wordNumeral_eq_absent_iff.1 habsent
        rw [h, List.append_nil]
        exact ⟨before, [45], rfl, hbefore, .minus, rfl⟩
      · rw [h]
        refine ⟨before ++ word ++ [32], [], (List.append_nil _).symm, ?_, .nil, rfl⟩
        simp [IsWordStart]
      · rw [h]
        exact isLineStart_append hend
      · obtain ⟨rfl, hline⟩ := hstart hatStart
        rw [h, List.append_nil]
        cases r.namesOpen with
        | true => exact ⟨before, rfl, hline, by simp⟩
        | false => trivial
      · obtain ⟨rfl, hline⟩ := hstart hatStart
        rw [h, List.append_nil]
        exact ⟨before, [], rfl, rfl, hline, by simp⟩

/-- What has been read still ends with what the reader is in the middle of when one more byte has
been read. -/
theorem ends_step (hfault : r.fault = none) (h : Ends bytes r.mode)
    (hread : (r.step b).fault = none) : Ends (bytes ++ [b]) (r.step b).mode := by
  rw [step_eq_countFeed hfault] at hread ⊢
  have hmode : (r.countFeed b).mode = r.mode := rfl
  rw [modeByte] at hread ⊢
  cases hcase : r.mode with
  | lineStart =>
      rw [hmode, hcase] at hread ⊢
      rw [hcase] at h
      have hword : bytes = bytes ++ [] := (List.append_nil bytes).symm
      rw [hword]
      exact ends_clauseByte (IsLineStart.isWordStart h) .nil (fun _ => ⟨rfl, h⟩) hread
  | clauses pending =>
      rw [hmode, hcase] at hread ⊢
      rw [hcase] at h
      obtain ⟨before, word, rfl, hbefore, hword, rfl⟩ := h
      exact ends_clauseByte hbefore hword (fun h => absurd h Bool.false_ne_true) hread
  | naming text =>
      rw [hmode, hcase]
      rw [hcase] at h
      obtain ⟨before, rfl, hbefore, htext⟩ := h
      simp only
      split
      next hend =>
        rw [mode_endNaming]
        exact isLineStart_append hend
      next hinside =>
        refine ⟨before, ?_, hbefore, List.forall_mem_cons.2 ⟨Bool.eq_false_iff.2 hinside, htext⟩⟩
        rw [List.reverse_cons, List.append_assoc]
        rfl
  | remark =>
      rw [hmode, hcase]
      simp only
      split
      next hend => exact isLineStart_append hend
      next =>
        rw [hmode, hcase]
        trivial
  | problem text =>
      rw [hmode, hcase]
      rw [hcase] at h
      obtain ⟨before, rest, rfl, htext, hbefore, hrest⟩ := h
      simp only
      split
      next hend =>
        rw [mode_endProblem]
        exact isLineStart_append hend
      next hinside =>
        refine ⟨before, rest ++ [b], ?_, ?_, hbefore, ?_⟩
        · rw [List.append_assoc]
          rfl
        · rw [List.reverse_cons, htext]
          rfl
        · exact List.forall_mem_append.2
            ⟨hrest, List.forall_mem_singleton.2 (Bool.eq_false_iff.2 hinside)⟩

/-- The reader has read the bytes without a fault. -/
structure HasRead (stem : String) (bytes : List UInt8) (r : Reader) : Prop where
  eq : bytes.foldl step { stem } = r
  fault : r.fault = none
  stem : r.stem = stem
  line : r.line = lineAfter bytes
  ends : Ends bytes r.mode

namespace HasRead

theorem start (stem : String) : HasRead stem [] { stem } :=
  ⟨rfl, rfl, rfl, rfl, by simp [Ends, IsLineStart]⟩

theorem line_countFeed (h : HasRead stem bytes r) (b : UInt8) :
    (r.countFeed b).line = lineAfter (bytes ++ [b]) := by
  rw [countFeed, h.line, lineAfter, lineAfter, List.count_append, Nat.add_assoc]

theorem step (h : HasRead stem bytes r) (hread : (r.step b).fault = none) :
    HasRead stem (bytes ++ [b]) (r.step b) := by
  have hends := ends_step h.fault h.ends hread
  obtain ⟨hline, hstem⟩ := sameLine_modeByte (r.countFeed b) b
  rw [← step_eq_countFeed h.fault] at hline hstem
  have heq : (bytes ++ [b]).foldl Reader.step { stem } = r.step b := by
    rw [List.foldl_append, h.eq]
    rfl
  exact ⟨heq, hread, hstem.trans h.stem, hline.trans (h.line_countFeed b), hends⟩

theorem foldl_step (h : HasRead stem before r) (hread : (bytes.foldl Reader.step r).fault = none) :
    HasRead stem (before ++ bytes) (bytes.foldl Reader.step r) := by
  induction bytes generalizing r before with
  | nil =>
      rw [List.append_nil]
      exact h
  | cons b bytes ih =>
      have hnext := ih (h.step (fault_of_foldl_step hread)) hread
      rw [List.append_assoc] at hnext
      exact hnext

end HasRead

/-! ## Faults and their items -/

/-- The fault is about an item, and it reports the line in which the item begins, or the one after
that if a line feed ends the item. -/
structure Locates (stem : String) (cause : DimacsError) (before : List UInt8) (item : Item)
    (rest : List UInt8) : Prop where
  isWhole : item.IsWhole before rest
  isAbout : cause.IsAbout stem item
  line : cause.line? = some (lineAfter before + if item.isFed rest then 1 else 0)

theorem lineAfter_append {item : List UInt8} (hitem : 10 ∉ item) (before : List UInt8) :
    lineAfter (before ++ item) = lineAfter before := by
  rw [lineAfter, List.count_append, List.count_eq_zero.2 hitem]
  rfl

theorem lineAfter_text {letter : UInt8} (hletter : letter ≠ 10)
    (htext : ∀ b ∈ text, isLineEnd b = false) (before : List UInt8) :
    lineAfter (before ++ letter :: text) = lineAfter before := by
  refine lineAfter_append (fun hmem => ?_) before
  rcases List.mem_cons.1 hmem with h | h
  · exact hletter h.symm
  · cases htext 10 h

theorem not_mem_of_isBegun (hword : IsBegun word) : 10 ∉ word := by
  intro hmem
  have hdigits := hword.digits
  unfold wordDigits at hdigits
  split at hdigits
  next hminus =>
    obtain ⟨digits, rfl⟩ := List.head?_eq_some_iff.1 hminus
    rcases List.mem_cons.1 hmem with h | h
    · cases h
    · cases hdigits 10 h
  next => cases hdigits 10 hmem

theorem isAbout_endNaming (hfault : r.fault = none)
    (h : (r.endNaming text.reverse).fault = some cause) :
    cause.IsAbout r.stem (.comment text) ∧ cause.line? = some r.line := by
  simp only [endNaming, List.reverse_reverse] at h
  split at h
  next =>
    rw [hfault] at h
    cases h
  next digits name hnaming =>
    have hline : lineNaming? (99 :: text) = some (Count.ofDigits digits, String.ofList name) := by
      rw [lineNaming?, hnaming]
      rfl
    split at h
    next hlarge =>
      cases h
      exact ⟨.namedNumber hline hlarge, rfl⟩
    next =>
      split at h
      next hzero =>
        cases h
        rw [hzero] at hline
        exact ⟨.namedZero hline, rfl⟩
      next =>
        rw [hfault] at h
        cases h

theorem isAbout_endProblem (hfault : r.fault = none) {line : List UInt8}
    (hline : line.reverse = 112 :: text) (h : (r.endProblem line).fault = some cause) :
    cause.IsAbout r.stem (.problem text) ∧ cause.line? = some r.line := by
  simp only [endProblem, hline] at h
  split at h
  next hnone =>
    cases h
    exact ⟨.header hnone, rfl⟩
  next header hsome =>
    split at h
    next hlarge =>
      cases h
      exact ⟨.declaredNumber hsome hlarge, rfl⟩
    next =>
      rw [hfault] at h
      cases h

/-- What the end of a line finds does not depend on the number of the line. -/
theorem fault_endMode_inLine (hfault : r.fault = none) (n : Nat) :
    { r with line := n }.endMode.fault = r.endMode.fault.map (DimacsError.inLine n) := by
  have hsame : r.fault = r.fault.map (DimacsError.inLine n) := by rw [hfault, Option.map_none]
  simp only [endMode]
  cases hmode : r.mode with
  | lineStart | remark => exact hsame
  | clauses pending =>
      simp only
      rw [endNumeral_eq, endNumeral_eq r]
      exact hsame
  | naming text =>
      simp only [endNaming]
      cases naming? (Utf8.decodeReplacing text.reverse).toList with
      | none => exact hsame
      | some naming =>
          simp only
          split
          · rfl
          · split
            · rfl
            · exact hsame
  | problem text =>
      simp only [endProblem]
      cases header? (Utf8.decodeReplacing text.reverse).toList with
      | none => rfl
      | some header =>
          simp only
          split
          · rfl
          · exact hsame

/-- A fault at the end of a line is about that line, which is a comment or the problem line. -/
theorem locates_endMode {rest : List UInt8} (hfault : r.fault = none) (hends : Ends bytes r.mode)
    (hline : r.line = lineAfter bytes + if rest.head? == some 10 then 1 else 0)
    (hrest : ∀ b ∈ rest.head?, isLineEnd b = true) (h : r.endMode.fault = some cause) :
    ∃ before item, bytes = before ++ item.bytes ∧ lineAfter bytes = lineAfter before ∧
      item.isFed [] = false ∧ Locates r.stem cause before item rest := by
  rw [endMode] at h
  cases hmode : r.mode with
  | lineStart | remark =>
      simp only [hmode, hfault] at h
      cases h
  | clauses pending =>
      simp only [hmode] at h
      rw [endNumeral_eq, hfault] at h
      cases h
  | naming text =>
      rw [hmode] at hends
      simp only [hmode] at h
      obtain ⟨before, rfl, hbefore, htext⟩ := hends
      have htext : ∀ b ∈ text.reverse, isLineEnd b = false := fun b hb =>
        htext b (List.mem_reverse.1 hb)
      rw [← List.reverse_reverse text] at h
      obtain ⟨habout, hreported⟩ := isAbout_endNaming hfault h
      have hsame := lineAfter_text (show (99 : UInt8) ≠ 10 by decide) htext before
      refine ⟨before, .comment text.reverse, rfl, hsame, rfl, ⟨hbefore, htext, hrest⟩, habout, ?_⟩
      rw [hreported, hline, hsame]
      rfl
  | problem line =>
      rw [hmode] at hends
      simp only [hmode] at h
      obtain ⟨before, text, rfl, hreverse, hbefore, htext⟩ := hends
      obtain ⟨habout, hreported⟩ := isAbout_endProblem hfault hreverse h
      have hsame := lineAfter_text (show (112 : UInt8) ≠ 10 by decide) htext before
      refine ⟨before, .problem text, rfl, hsame, rfl, ⟨hbefore, htext, hrest⟩, habout, ?_⟩
      rw [hreported, hline, hsame]
      rfl

theorem numberTooLarge_of_digit (hfault : r.fault = none)
    (h : (r.digit negative value d).fault = some cause) :
    cause = .numberTooLarge r.line value d ∧ largestVariable < value * 10 + d := by
  rw [digit] at h
  split at h
  next =>
    rw [hfault] at h
    cases h
  next hlarge =>
    cases h
    exact ⟨rfl, Nat.lt_of_not_le hlarge⟩

theorem unexpectedInput_of_clauseByte (hfault : r.fault = none) (hdigit : digit? b = none)
    (h : (r.clauseByte atStart pending b).fault = some cause) :
    cause = .unexpectedInput r.line (Char.ofNat b.toNat) := by
  have hend : (r.endNumeral pending).fault = none := by
    rw [endNumeral_eq]
    exact hfault
  simp only [clauseByte, hdigit] at h
  split at h
  next =>
    rw [hfault] at h
    cases h
  next =>
    split at h
    next =>
      rw [hend] at h
      cases h
    next =>
      split at h
      next =>
        rw [hfault] at h
        cases h
      next =>
        split at h
        next =>
          rw [hfault] at h
          cases h
        next =>
          cases h
          rfl

/-- A fault at a byte outside lines of text is about the byte, or about the numeral that it goes on
with. -/
theorem locates_clauseByte (hfault : r.fault = none) (hbytes : bytes = before ++ word)
    (hbefore : IsWordStart before) (hword : IsBegun word)
    (hline : r.line = lineAfter (bytes ++ [b]))
    (h : (r.clauseByte atStart (wordNumeral word) b).fault = some cause) :
    ∃ start item, start <+: bytes ∧ bytes ++ [b] = start ++ item.bytes ∧
      ∀ rest, Locates r.stem cause start item rest := by
  cases hd : digit? b with
  | some d =>
      rw [clauseByte_digit hd (numeral?_wordNumeral word)] at h
      obtain ⟨rfl, hlarge⟩ := numberTooLarge_of_digit hfault h
      subst hbytes
      have hdigits : IsNumeral (word ++ [b]) := by
        rw [IsNumeral, wordDigits_append_digit hd, List.forall_mem_append,
          List.forall_mem_singleton, hd]
        exact ⟨List.append_ne_nil_of_right_ne_nil _ (List.cons_ne_nil _ _), hword.digits, rfl⟩
      have hfeed : 10 ∉ word ++ [b] := by
        rw [List.mem_append, List.mem_singleton, not_or]
        refine ⟨not_mem_of_isBegun hword, ?_⟩
        rintro rfl
        cases hd
      refine ⟨before, .numeral (word ++ [b]), List.prefix_append .., List.append_assoc .., fun _ =>
        ⟨hbefore, .numeral hdigits (wordValue_append_digit hd) hword.value_le ?_, ?_⟩⟩
      · rw [wordValue_append_digit hd]
        exact hlarge
      · rw [DimacsError.line?, hline, List.append_assoc, lineAfter_append hfeed]
        rfl
  | none =>
      obtain rfl := unexpectedInput_of_clauseByte hfault hd h
      refine ⟨bytes, .byte b, List.prefix_rfl, rfl, fun _ => ⟨trivial, .byte, ?_⟩⟩
      rw [DimacsError.line?, hline, lineAfter, List.count_append, List.count_singleton,
        ← Nat.add_assoc]
      rfl

/-- The text that is cut after the item has the same fault, and reports the line in which the item
begins, unless a line feed is the item. -/
def StopsAt (stem : String) (cause : DimacsError) (before : List UInt8) (item : Item) : Prop :=
  perform [] { stem } [.feed (before ++ item.bytes)] =
    .error (cause.inLine (lineAfter before + if item.isFed [] then 1 else 0))

variable {item : Item}

theorem stopsAt_of_fault (h : ((before ++ item.bytes).foldl step { stem }).fault = some cause)
    (hline : cause.line? = some (lineAfter before + if item.isFed [] then 1 else 0)) :
    StopsAt stem cause before item := by
  rw [StopsAt, perform_feed rfl, h, DimacsError.inLine_of_line? hline]

theorem stopsAt_of_endMode (hr : HasRead stem (before ++ item.bytes) r)
    (h : r.endMode.fault = some (cause.inLine (lineAfter before))) (hfed : item.isFed [] = false) :
    StopsAt stem cause before item := by
  rw [StopsAt, perform_feed rfl, hr.eq, hr.fault, hfed]
  simp only [perform, finish, hr.fault, h]
  rfl

/-- The fault is about an item of the text, which begins in the part that has been read. -/
def Finds (stem : String) (cause : DimacsError) (read text : List UInt8) : Prop :=
  ∃ before item rest, before <+: read ∧ text = before ++ item.bytes ++ rest ∧
    Locates stem cause before item rest ∧ StopsAt stem cause before item

theorem HasRead.finds_of_clauseByte (hr : HasRead stem bytes r)
    (hstep : (r.step b).fault = some cause) (hbytes : bytes = before ++ word)
    (hbefore : IsWordStart before) (hword : IsBegun word)
    (h : ((r.countFeed b).clauseByte atStart (wordNumeral word) b).fault = some cause)
    (more : List UInt8) : Finds stem cause bytes (bytes ++ b :: more) := by
  have hfault : (r.countFeed b).fault = none := hr.fault
  have hstem : (r.countFeed b).stem = stem := hr.stem
  obtain ⟨start, item, hstart, hitem, hlocates⟩ :=
    locates_clauseByte hfault hbytes hbefore hword (hr.line_countFeed b) h
  rw [hstem] at hlocates
  refine ⟨start, item, more, hstart, ?_, hlocates more, stopsAt_of_fault ?_ (hlocates []).line⟩
  · rw [← hitem, List.append_assoc, List.singleton_append]
  · rw [← hitem, List.foldl_append, hr.eq]
    exact hstep

theorem HasRead.finds_of_endMode (hr : HasRead stem bytes r) (hb : isLineEnd b = true)
    (h : (r.countFeed b).endMode.fault = some cause) (more : List UInt8) :
    Finds stem cause bytes (bytes ++ b :: more) := by
  have hfault : (r.countFeed b).fault = none := hr.fault
  have hstem : (r.countFeed b).stem = stem := hr.stem
  have hline : (r.countFeed b).line =
      lineAfter bytes + if (b :: more).head? == some 10 then 1 else 0 := by
    rw [hr.line_countFeed, lineAfter, lineAfter, List.count_append, List.count_singleton,
      ← Nat.add_assoc]
    rfl
  have hrest : ∀ b' ∈ (b :: more).head?, isLineEnd b' = true := by simpa using hb
  obtain ⟨before, item, hitem, hsame, hfed, hlocates⟩ :=
    locates_endMode hfault hr.ends hline hrest h
  rw [hstem] at hlocates
  -- At the end of the text the line feed has not been counted.
  have hend : r.endMode.fault = some (cause.inLine r.line) := by
    have hplace := fault_endMode_inLine hfault r.line
    rw [h] at hplace
    exact hplace
  rw [hr.line, hsame] at hend
  refine ⟨before, item, b :: more, ⟨item.bytes, hitem.symm⟩, by rw [hitem], hlocates, ?_⟩
  rw [hitem] at hr
  exact stopsAt_of_endMode hr hend hfed

/-- A fault at a byte is about the byte or about what it ends or goes on with. -/
theorem HasRead.finds (hr : HasRead stem bytes r) (h : (r.step b).fault = some cause)
    (more : List UInt8) : Finds stem cause bytes (bytes ++ b :: more) := by
  have hfault : (r.countFeed b).fault = none := hr.fault
  have hmode : (r.countFeed b).mode = r.mode := rfl
  have hends := hr.ends
  have hstep := h
  rw [step_eq_countFeed hr.fault, modeByte, hmode] at h
  cases hcase : r.mode with
  | lineStart =>
      rw [hcase] at h hends
      exact hr.finds_of_clauseByte hstep (List.append_nil bytes).symm
        (IsLineStart.isWordStart hends) .nil h more
  | clauses pending =>
      rw [hcase] at h hends
      obtain ⟨before, word, hbytes, hbefore, hbegun, rfl⟩ := hends
      exact hr.finds_of_clauseByte hstep hbytes hbefore hbegun h more
  | naming text | problem text =>
      simp only [hcase] at h
      split at h
      next hb => exact hr.finds_of_endMode hb (by simpa only [endMode, hmode, hcase] using h) more
      next =>
        rw [hfault] at h
        cases h
  | remark =>
      simp only [hcase] at h
      split at h
      next =>
        rw [hfault] at h
        cases h
      next =>
        rw [hfault] at h
        cases h

/-! ## Faults of a text -/

/-- A reader that stops does so at one byte. -/
theorem exists_first_fault (hfault : r.fault = none)
    (h : (bytes.foldl step r).fault = some cause) :
    ∃ read b more, bytes = read ++ b :: more ∧ (read.foldl step r).fault = none ∧
      ((read.foldl step r).step b).fault = some cause := by
  induction bytes generalizing r with
  | nil =>
      rw [List.foldl_nil, hfault] at h
      cases h
  | cons b bytes ih =>
      cases hstep : (r.step b).fault with
      | some cause' =>
          rw [List.foldl_cons, foldl_step_of_fault hstep] at h
          exact ⟨[], b, bytes, rfl, hfault, h⟩
      | none =>
          obtain ⟨read, b', more, rfl, hread, hb'⟩ := ih hstep h
          exact ⟨b :: read, b', more, rfl, hread, hb'⟩

/-- What is before an item was read without a fault. -/
theorem feed_of_prefix (hread : (bytes.foldl step { stem }).fault = none)
    (hbefore : before <+: bytes) : (feed { stem } before).2 = .ok () := by
  obtain ⟨rest, rfl⟩ := hbefore
  rw [List.foldl_append] at hread
  have hread := fault_of_foldl_step hread
  rcases feed_cases { stem } before with ⟨hfault, -⟩ | ⟨-, -, ⟨-, hok⟩ | ⟨cause, hcause, -⟩⟩
  · cases hfault
  · exact hok
  · rw [hread] at hcause
    cases hcause

/-- However a text is cut into chunks, a fault in it is about an item of the text and reports the
line in which the item begins, unless a line feed ends the item or is the item.  Then it reports
the line after that.  Nothing before the item is a fault, and nothing after it is needed for one. -/
theorem reported_line_eq {calls : List Call} (h : perform [] { stem } calls = .error cause)
    (hcause : cause.InText) :
    ∃ before item rest, calls.flatMap Call.bytes = before ++ item.bytes ++ rest ∧
      (feed { stem } before).2 = .ok () ∧ StopsAt stem cause before item ∧
      item.IsWhole before rest ∧ cause.IsAbout stem item ∧
      cause.line? = some (lineAfter before + if item.isFed rest then 1 else 0) := by
  rw [perform_eq_whole, perform_feed rfl] at h
  generalize calls.flatMap Call.bytes = bytes at h ⊢
  cases hbytes : (bytes.foldl step { stem }).fault with
  | some cause' =>
      rw [hbytes] at h
      cases h
      obtain ⟨read, b, more, rfl, hread, hb⟩ := exists_first_fault rfl hbytes
      have hr := (HasRead.start stem).foldl_step hread
      obtain ⟨before, item, rest, hbefore, hitem, hlocates, hstops⟩ := hr.finds hb more
      exact ⟨before, item, rest, hitem, feed_of_prefix hread hbefore, hstops, hlocates.isWhole,
        hlocates.isAbout, hlocates.line⟩
  | none =>
      have hr := (HasRead.start stem).foldl_step hbytes
      rw [List.nil_append] at hr
      rw [hbytes] at h
      simp only [perform] at h
      rcases finish_cases (bytes.foldl step { stem }) with ⟨cause', hend, hfinish⟩ |
        ⟨-, -, hok | ⟨line, hline⟩⟩
      · rw [hfinish] at h
        cases h
        have hnone : ∀ b ∈ ([] : List UInt8).head?, isLineEnd b = true := by simp
        have hline : (bytes.foldl step { stem }).line =
            lineAfter bytes + if ([] : List UInt8).head? == some 10 then 1 else 0 := hr.line
        obtain ⟨before, item, hitem, -, hfed, hlocates⟩ :=
          locates_endMode hr.fault hr.ends hline hnone hend
        rw [hr.stem] at hlocates
        have hreported := hlocates.line
        rw [hfed] at hreported
        refine ⟨before, item, [], by rw [List.append_nil, hitem],
          feed_of_prefix hbytes ⟨item.bytes, hitem.symm⟩, ?_, hlocates.isWhole, hlocates.isAbout,
          hlocates.line⟩
        rw [← DimacsError.inLine_of_line? hreported] at hend
        rw [hitem] at hr hend
        exact stopsAt_of_endMode hr hend hfed
      · rw [hok] at h
        cases h
      · rw [hline] at h
        cases h
        cases hcause

/-- A name for the number 0 after a line end of two bytes, ended by the end of the text. -/
def zeroNamedExample : List Call := [.feed [99, 32, 49, 32, 65, 13], .feed [10, 99, 32, 48, 32, 66]]

theorem reported_line_eq_example :
    perform [] {} zeroNamedExample = .error (.invalidNaming 2 "B") ∧
      ∃ before item rest,
        zeroNamedExample.flatMap Call.bytes = before ++ Item.bytes item ++ rest ∧
          (feed {} before).2 = .ok () ∧ StopsAt "" (.invalidNaming 2 "B") before item ∧
          item.IsWhole before rest ∧ DimacsError.IsAbout "" (.invalidNaming 2 "B") item ∧
          some 2 = some (lineAfter before + if item.isFed rest then 1 else 0) := by
  have h : perform [] {} zeroNamedExample = .error (.invalidNaming 2 "B") := by rfl
  exact ⟨h, reported_line_eq h trivial⟩

/-- The same problem line is reported as line 2 if a line feed ends it, and else as line 1. -/
theorem reported_line_fails :
    (feed {} "p cnf\n".toUTF8.toList).2 = .error (.invalidHeader 2 "p cnf") ∧
      (feed {} "p cnf\r".toUTF8.toList).2 = .error (.invalidHeader 1 "p cnf") ∧
      DimacsError.IsAbout "" (.invalidHeader 2 "p cnf") (.problem [32, 99, 110, 102]) ∧
      Item.IsWhole [] [10] (.problem [32, 99, 110, 102]) ∧ lineAfter [] = 1 := by
  have htext : Utf8.decodeReplacing [112, 32, 99, 110, 102] = "p cnf" := by decide +kernel
  have hheader : lineHeader? [112, 32, 99, 110, 102] = none := by
    rw [lineHeader?, htext]
    decide
  have habout :
      DimacsError.IsAbout "" (.invalidHeader 2 "p cnf") (.problem [32, 99, 110, 102]) := by
    rw [← htext]
    exact .header hheader
  refine ⟨by decide +kernel, by decide +kernel, habout, ⟨?_, ?_, ?_⟩, rfl⟩
  · simp [IsLineStart]
  · simp [isLineEnd]
  · simp [isLineEnd]

end Reader
end Presence
