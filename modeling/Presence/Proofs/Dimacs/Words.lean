import Presence.Proofs.Dimacs.Chunks
import Presence.Proofs.Dimacs.Lines

/-!
# Rows of numerals

A text falls into lines, and a line that is neither a comment nor a problem line is a row of
words divided by blanks.  The words of a row that is read without a fault are numerals, and the
reader ends them one after the other (`Reader.endLine_of_row`).  Only at the very end a minus
sign may be left over, since the reader finds out at the next byte that no digit follows it.

The proof goes by the word in progress.  A byte other than a blank makes it longer, and a blank
ends it (`Reader.step_row`).
-/

namespace Presence

open Dimacs

namespace Dimacs

open Reader (isLineEnd digit?)

/-! ## Lines, words and numerals -/

/-- The lines of a text. -/
def textLines (bytes : List UInt8) : List (List UInt8) := bytes.splitOnP isLineEnd

/-- The words of a line. -/
def lineWords (line : List UInt8) : List (List UInt8) :=
  (line.splitOnP (· == 32)).filter (!·.isEmpty)

/-- A word without a minus sign at its start. -/
def wordDigits (w : List UInt8) : List UInt8 := if w.head? = some 45 then w.tail else w

/-- The word is a row of digits, perhaps after a minus sign. -/
def IsNumeral (w : List UInt8) : Prop :=
  wordDigits w ≠ [] ∧ ∀ b ∈ wordDigits w, (digit? b).isSome = true

instance : DecidablePred IsNumeral := fun w =>
  inferInstanceAs (Decidable (wordDigits w ≠ [] ∧ ∀ b ∈ wordDigits w, (digit? b).isSome = true))

/-- The number that the digits of a word write. -/
def wordValue (w : List UInt8) : Nat :=
  (wordDigits w).foldl (fun v b => v * 10 + (digit? b).getD 0) 0

/-- The word as a numeral of which it has been read. -/
def wordNumeral (w : List UInt8) : Numeral :=
  if w = [] then .absent
  else if wordDigits w = [] then .minus
  else .digits (w.head? == some 45) (wordValue w)

/-- The word is the numeral of a supported number. -/
def IsReadable (w : List UInt8) : Prop := IsNumeral w ∧ wordValue w ≤ largestVariable

/-- The word can be the beginning of such a numeral. -/
structure IsBegun (w : List UInt8) : Prop where
  not_blank : 32 ∉ w
  digits : ∀ b ∈ wordDigits w, (digit? b).isSome = true
  value_le : wordValue w ≤ largestVariable

variable {w line : List UInt8} {b : UInt8} {d : Nat}

theorem lineWords_of_not_mem (h : 32 ∉ w) : lineWords w = if w = [] then [] else [w] := by
  have hsplit : w.splitOnP (· == 32) = [w] := by
    refine List.splitOnP_eq_singleton fun b hb => beq_eq_false_iff_ne.2 ?_
    rintro rfl
    exact h hb
  rw [lineWords, hsplit]
  cases w with
  | nil => rfl
  | cons b w => rfl

/-- A blank divides words. -/
theorem lineWords_append_blank (line line' : List UInt8) :
    lineWords (line ++ 32 :: line') = lineWords line ++ lineWords line' := by
  rw [lineWords, List.splitOnP_append_cons _ _ rfl, List.filter_append]
  rfl

theorem ne_minus_of_digit? (hb : digit? b = some d) : b ≠ 45 := by
  rintro rfl
  cases hb

theorem wordDigits_append_digit (hb : digit? b = some d) :
    wordDigits (w ++ [b]) = wordDigits w ++ [b] := by
  cases w with
  | nil => simp [wordDigits, ne_minus_of_digit? hb]
  | cons c w =>
      simp only [wordDigits, List.cons_append, List.head?_cons, List.tail_cons]
      by_cases hc : c = 45 <;> simp [hc]

theorem wordValue_append_digit (hb : digit? b = some d) :
    wordValue (w ++ [b]) = wordValue w * 10 + d := by
  rw [wordValue, wordDigits_append_digit hb, List.foldl_append, List.foldl_cons, List.foldl_nil,
    hb]
  rfl

theorem head?_append_digit (hb : digit? b = some d) :
    ((w ++ [b]).head? == some 45) = (w.head? == some 45) := by
  cases w with
  | nil => simp [ne_minus_of_digit? hb]
  | cons c w => rfl

theorem wordNumeral_append_digit (hb : digit? b = some d) :
    wordNumeral (w ++ [b]) = .digits (w.head? == some 45) (wordValue w * 10 + d) := by
  rw [wordNumeral, if_neg (by simp), if_neg (by simp [wordDigits_append_digit hb]),
    head?_append_digit hb, wordValue_append_digit hb]

/-- A digit goes on with the sign and the value of the word. -/
theorem numeral?_wordNumeral (w : List UInt8) :
    Reader.numeral? (.clauses (wordNumeral w)) = some (w.head? == some 45, wordValue w) := by
  unfold wordNumeral
  split
  next h =>
    subst h
    rfl
  next hne =>
    split
    next h =>
      have hvalue : wordValue w = 0 := by rw [wordValue, h, List.foldl_nil]
      have hhead : w.head? = some 45 := by
        by_contra hhead
        rw [wordDigits, if_neg hhead] at h
        exact hne h
      rw [hvalue, hhead]
      rfl
    next => rfl

theorem IsNumeral.ne_nil (h : IsNumeral w) : w ≠ [] := by
  rintro rfl
  exact h.1 rfl

/-- A numeral has been read with its sign and its value. -/
theorem IsNumeral.wordNumeral_eq (h : IsNumeral w) :
    wordNumeral w = .digits (w.head? == some 45) (wordValue w) := by
  rw [wordNumeral, if_neg h.ne_nil, if_neg h.1]

theorem wordNumeral_eq_absent_iff : wordNumeral w = .absent ↔ w = [] := by
  unfold wordNumeral
  split
  next h => simp [h]
  next h => split <;> simp [h]

namespace IsBegun

theorem nil : IsBegun [] := ⟨by simp, by simp [wordDigits], Nat.zero_le _⟩

theorem minus : IsBegun [45] := ⟨by decide, by simp [wordDigits], Nat.zero_le _⟩

theorem append_digit (h : IsBegun w) (hb : digit? b = some d)
    (hle : wordValue w * 10 + d ≤ largestVariable) : IsBegun (w ++ [b]) where
  not_blank := by
    rw [List.mem_append, List.mem_singleton, not_or]
    refine ⟨h.not_blank, ?_⟩
    rintro rfl
    cases hb
  digits := by
    rw [wordDigits_append_digit hb, List.forall_mem_append, List.forall_mem_singleton, hb]
    exact ⟨h.digits, rfl⟩
  value_le := by
    rw [wordValue_append_digit hb]
    exact hle

/-- Before any digit there is at most the minus sign. -/
theorem cases (h : IsBegun w) : w = [] ∨ w = [45] ∨ IsReadable w := by
  by_cases hdigits : wordDigits w = []
  · unfold wordDigits at hdigits
    split at hdigits
    next hhead =>
      cases w with
      | nil => cases hhead
      | cons b w =>
          cases hhead
          cases hdigits
          exact Or.inr (Or.inl rfl)
    next => exact Or.inl hdigits
  · exact Or.inr (Or.inr ⟨⟨hdigits, h.digits⟩, h.value_le⟩)

theorem isReadable (h : IsBegun w) (hne : w ≠ []) (hminus : wordNumeral w ≠ .minus) :
    IsReadable w := by
  rcases h.cases with rfl | rfl | h
  · exact absurd rfl hne
  · exact absurd rfl hminus
  · exact h

theorem forall_mem_lineWords (h : IsBegun w) (hminus : wordNumeral w ≠ .minus) :
    ∀ v ∈ lineWords w, IsReadable v := by
  rw [lineWords_of_not_mem h.not_blank]
  split
  next => simp
  next hne => simpa using h.isReadable hne hminus

end IsBegun

end Dimacs

namespace Reader

variable {r : Reader} {s line : List UInt8} {b : UInt8} {n : Nat}

/-! ## Reading a row -/

/-- Ends a word of a row. -/
def endWord (r : Reader) (w : List UInt8) : Reader := r.endNumeral (wordNumeral w)

/-- The reader at another place. -/
def placed (r : Reader) (mode : Mode) (line : Nat) (namesOpen : Bool) : Reader :=
  { r with mode, line, namesOpen }

/-- Ends the line, at a place with another number. -/
def endLine (r : Reader) (line : Nat) : Reader := { r with line }.endMode.inMode .lineStart

/-- The end of a numeral changes only the clauses and their number. -/
theorem endNumeral_eq (r : Reader) (pending : Numeral) :
    r.endNumeral pending =
      { r with
        cnf := (r.endNumeral pending).cnf
        literals := (r.endNumeral pending).literals
        clauseCount := (r.endNumeral pending).clauseCount } := by
  cases pending with
  | absent | minus => rfl
  | digits negative value =>
      rw [endNumeral]
      split
      · rfl
      · rfl

/-- What becomes of the clauses does not depend on the place. -/
theorem endNumeral_placed (r : Reader) (mode : Mode) (line : Nat) (isOpen : Bool)
    (pending : Numeral) :
    (r.placed mode line isOpen).endNumeral pending =
      (r.endNumeral pending).placed mode line isOpen := by
  cases pending with
  | absent | minus => rfl
  | digits negative value =>
      rw [endNumeral, endNumeral]
      split
      · rfl
      · rfl

theorem endWord_placed (r : Reader) (mode : Mode) (line : Nat) (isOpen : Bool) (w : List UInt8) :
    (r.placed mode line isOpen).endWord w = (r.endWord w).placed mode line isOpen :=
  endNumeral_placed r mode line isOpen (wordNumeral w)

theorem foldl_endWord_placed (ws : List (List UInt8)) (r : Reader) (mode : Mode) (line : Nat)
    (isOpen : Bool) :
    ws.foldl endWord (r.placed mode line isOpen) =
      (ws.foldl endWord r).placed mode line isOpen := by
  induction ws generalizing r with
  | nil => rfl
  | cons w ws ih => rw [List.foldl_cons, List.foldl_cons, endWord_placed, ih]

theorem foldl_endWord_lineWords (h : 32 ∉ s) (r : Reader) :
    (lineWords s).foldl endWord r = r.endWord s := by
  rw [lineWords_of_not_mem h]
  split
  next hnil =>
    subst hnil
    rfl
  next => rfl

/-- What a byte that is no digit can do outside lines of text, unless it is a fault. -/
theorem clauseByte_cases {atStart : Bool} {pending : Numeral} (hdigit : digit? b = none)
    (hfault : (r.clauseByte atStart pending b).fault = none) :
    (b = 45 ∧ pending = .absent ∧ r.clauseByte atStart pending b = r.afterMinus) ∨
      (b = 32 ∧ pending ≠ .minus ∧
        r.clauseByte atStart pending b = (r.endNumeral pending).inMode (.clauses .absent)) ∨
      (isLineEnd b = true ∧ pending ≠ .minus ∧
        r.clauseByte atStart pending b = (r.endNumeral pending).inMode .lineStart) ∨
      (b = 99 ∧ atStart = true ∧
        r.clauseByte atStart pending b = r.inMode (if r.namesOpen then .naming [] else .remark)) ∨
      (b = 112 ∧ atStart = true ∧ r.header = none ∧
        r.clauseByte atStart pending b = (r.inMode (.problem [112])).namesClosed) := by
  unfold clauseByte at hfault ⊢
  simp only [hdigit] at hfault ⊢
  split at hfault
  next h => exact Or.inl ⟨h.1, h.2, if_pos h⟩
  next hminus =>
    rw [if_neg hminus]
    refine Or.inr ?_
    split at hfault
    next h =>
      rw [if_pos h]
      rcases h with ⟨rfl | hend, hpending⟩
      · exact Or.inl ⟨rfl, hpending, rfl⟩
      · have hblank : b ≠ 32 := by
          rintro rfl
          cases hend
        rw [if_neg hblank]
        exact Or.inr (Or.inl ⟨hend, hpending, rfl⟩)
    next hblank =>
      rw [if_neg hblank]
      refine Or.inr (Or.inr ?_)
      split at hfault
      next h => exact Or.inl ⟨h.1, h.2, if_pos h⟩
      next hcomment =>
        rw [if_neg hcomment]
        split at hfault
        next h =>
          obtain ⟨rfl, hstart, hheader⟩ := h
          exact Or.inr ⟨rfl, hstart, hheader, if_pos ⟨rfl, hstart, hheader⟩⟩
        next => cases hfault

theorem endNumeral_inMode (r : Reader) (pending : Numeral) (mode : Mode) :
    (r.endNumeral pending).inMode mode = (r.endNumeral pending).placed mode r.line r.namesOpen := by
  rw [endNumeral_eq]
  rfl

/-- The reader is in a row with a word in progress, or where a row can begin. -/
def InRow (r : Reader) (s line : List UInt8) : Prop :=
  r.mode = .clauses (wordNumeral s) ∨
    r.mode = .lineStart ∧ s = [] ∧ line.head? ≠ some 99 ∧ line.head? ≠ some 112

/-- A byte of a row goes on with the word in progress, or it is a blank and ends the word. -/
theorem step_row (hfault : r.fault = none) (hmode : r.InRow s (b :: line)) (hs : IsBegun s)
    (hb : isLineEnd b = false) (hstep : (r.step b).fault = none) :
    (b ≠ 32 ∧ IsBegun (s ++ [b]) ∧
        r.step b = r.placed (.clauses (wordNumeral (s ++ [b]))) r.line false) ∨
      (b = 32 ∧ wordNumeral s ≠ .minus ∧
        r.step b = (r.endWord s).placed (.clauses .absent) r.line r.namesOpen) := by
  have hfeed : b ≠ 10 := by
    rintro rfl
    cases hb
  cases hd : digit? b with
  | some d =>
      have hnumeral : numeral? r.mode = some (s.head? == some 45, wordValue s) := by
        rcases hmode with hmode | ⟨hmode, rfl, -⟩
        · rw [hmode, numeral?_wordNumeral]
        · rw [hmode]
          rfl
      rw [step_digit hfault hnumeral hd] at hstep ⊢
      by_cases hle : wordValue s * 10 + d ≤ largestVariable
      · refine Or.inl ⟨?_, hs.append_digit hd hle, ?_⟩
        · rintro rfl
          cases hd
        · rw [digit_eq hle, wordNumeral_append_digit hd]
          rfl
      · rw [digit, if_neg hle] at hstep
        cases hstep
  | none =>
      obtain ⟨atStart, hbyte, hstart⟩ : ∃ atStart, r.step b = r.clauseByte atStart (wordNumeral s) b ∧
          (atStart = true → b ≠ 99 ∧ b ≠ 112) := by
        rw [step_eq hfault, if_neg hfeed, modeByte]
        rcases hmode with hmode | ⟨hmode, rfl, hc, hp⟩
        · rw [hmode]
          exact ⟨false, rfl, fun h => absurd h Bool.false_ne_true⟩
        · rw [hmode]
          exact ⟨true, rfl, fun _ => ⟨mt (congrArg some) hc, mt (congrArg some) hp⟩⟩
      rw [hbyte] at hstep ⊢
      rcases clauseByte_cases hd hstep with ⟨rfl, habsent, h⟩ | ⟨rfl, hminus, h⟩ | ⟨hend, -⟩ |
        ⟨rfl, h, -⟩ | ⟨rfl, h, -⟩
      · cases wordNumeral_eq_absent_iff.1 habsent
        exact Or.inl ⟨by decide, .minus, h⟩
      · exact Or.inr ⟨rfl, hminus, h.trans (endNumeral_inMode r _ _)⟩
      · rw [hb] at hend
        cases hend
      · exact absurd rfl (hstart h).1
      · exact absurd rfl (hstart h).2

/-- The end of a line ends the word in progress. -/
theorem InRow.endLine_eq (hmode : r.InRow s line) (n : Nat) :
    r.endLine n = (r.endWord s).placed .lineStart n r.namesOpen := by
  rcases hmode with hmode | ⟨hmode, rfl, -⟩
  · have hplace : { r with line := n } = r.placed (.clauses (wordNumeral s)) n r.namesOpen := by
      rw [← hmode]
      rfl
    have hend : (r.placed (.clauses (wordNumeral s)) n r.namesOpen).endMode =
        ((r.placed (.clauses (wordNumeral s)) n r.namesOpen).endNumeral (wordNumeral s)).inMode
          (.clauses .absent) := rfl
    rw [endLine, hplace, hend, endNumeral_placed]
    rfl
  · rw [endLine, endMode]
    simp only [hmode]
    rfl

/-- At the end of a line the word in progress is a numeral, or a minus sign is left over. -/
theorem InRow.endLine_cases (hmode : r.InRow s []) (hs : IsBegun s) (n : Nat) :
    ∃ ws rest, lineWords s = ws ++ rest ∧ (∀ w ∈ ws, IsReadable w) ∧
      (rest = [] ∨ rest = [[45]] ∧ r.mode = .clauses .minus) ∧
      r.endLine n = (ws.foldl endWord r).placed .lineStart n r.namesOpen := by
  rw [hmode.endLine_eq, lineWords_of_not_mem hs.not_blank]
  rcases hs.cases with rfl | rfl | hreadable
  · exact ⟨[], [], rfl, by simp, Or.inl rfl, rfl⟩
  · have hminus : r.mode = .clauses .minus := hmode.resolve_right fun h => by cases h.2.1
    exact ⟨[], [[45]], rfl, by simp, Or.inr ⟨rfl, hminus⟩, rfl⟩
  · exact ⟨[s], [], by rw [if_neg hreadable.1.ne_nil]; rfl, by simpa using hreadable, Or.inl rfl, rfl⟩

/-- A word in progress has ended the naming of variables already. -/
theorem namesOpen_and_all (hopen : s ≠ [] → r.namesOpen = false) (line : List UInt8) :
    (r.namesOpen && (s ++ line).all (· == 32)) = (r.namesOpen && line.all (· == 32)) := by
  by_cases hnil : s = []
  · rw [hnil, List.nil_append]
  · rw [hopen hnil, Bool.false_and, Bool.false_and]

/-- The words of a row are ended in turn.  Left over is at most a minus sign, which the reader
is then still holding. -/
theorem endLine_of_row (hfault : r.fault = none) (hmode : r.InRow s line)
    (hs : IsBegun s) (hopen : s ≠ [] → r.namesOpen = false)
    (hline : ∀ b ∈ line, isLineEnd b = false) (hread : (line.foldl step r).fault = none) (n : Nat) :
    ∃ ws rest, lineWords (s ++ line) = ws ++ rest ∧ (∀ w ∈ ws, IsReadable w) ∧
      (rest = [] ∨ rest = [[45]] ∧ (line.foldl step r).mode = .clauses .minus) ∧
      (line.foldl step r).endLine n =
        (ws.foldl endWord r).placed .lineStart n (r.namesOpen && (s ++ line).all (· == 32)) := by
  rw [namesOpen_and_all hopen]
  -- The induction is on the bytes after the word in progress, which each byte changes.
  induction line generalizing r s with
  | nil =>
      rw [List.append_nil, List.all_nil, Bool.and_true]
      exact hmode.endLine_cases hs n
  | cons b line ih =>
      obtain ⟨hb, hbytes⟩ := List.forall_mem_cons.1 hline
      rw [List.foldl_cons] at hread ⊢
      have hstep : (r.step b).fault = none := fault_of_foldl_step hread
      rcases step_row hfault hmode hs hb hstep with ⟨hblank, hbegun, hnext⟩ | ⟨rfl, hminus, hnext⟩
      · obtain ⟨ws, rest, hwords, hws, hrest, hend⟩ := ih hstep (Or.inl (by rw [hnext]; rfl)) hbegun
          (fun _ => by rw [hnext]; rfl) hbytes hread
        have hall : (b :: line).all (· == 32) = false := by simp [hblank]
        refine ⟨ws, rest, ?_, hws, hrest, ?_⟩
        · rw [← hwords, List.append_assoc, List.singleton_append]
        · rw [hend, hnext, foldl_endWord_placed, hall, Bool.and_false]
          rfl
      · obtain ⟨ws, rest, hwords, hws, hrest, hend⟩ := ih (s := []) hstep
          (Or.inl (by rw [hnext]; rfl)) .nil (fun h => absurd rfl h) hbytes hread
        rw [List.nil_append] at hwords
        refine ⟨lineWords s ++ ws, rest, ?_, ?_, hrest, ?_⟩
        · rw [lineWords_append_blank, hwords, List.append_assoc]
        · exact List.forall_mem_append.2 ⟨hs.forall_mem_lineWords hminus, hws⟩
        · rw [hend, hnext, foldl_endWord_placed, List.foldl_append,
            foldl_endWord_lineWords hs.not_blank]
          rfl

end Reader
end Presence
