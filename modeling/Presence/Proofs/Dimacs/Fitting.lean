import Presence.Proofs.Dimacs.Accepted

/-!
# Lines that fit

Whether a line is read without a fault depends on little of the reader: whether it still takes
names, and whether it knows the counts already.  A comment must not name the number 0 or one that
is too large, a problem line must declare supported counts for the first time, and the words of a
row must be numerals of supported numbers (`Reader.Fits`).

A line that fits is read to its end without a fault (`Reader.Fits.fault_endLine`).  With that a
text is gone through line by line (`Reader.fault_endMode_of_fits`), and `Reader.reads_of_fault`
tells what was read.
-/

namespace Presence

open Dimacs

namespace Dimacs

open Reader (digit?)

variable {w s t line : List UInt8} {b : UInt8}

/-! ## Words in progress -/

theorem IsReadable.isBegun (h : IsReadable w) : IsBegun w where
  not_blank := by
    intro hblank
    have hmem : 32 ∈ wordDigits w := by
      cases w with
      | nil => cases hblank
      | cons c w =>
          rw [wordDigits]
          split
          next hminus =>
            cases hminus
            exact (List.mem_cons.1 hblank).resolve_left (by decide)
          next => exact hblank
    have hdigit := h.1.2 32 hmem
    cases hdigit
  digits := h.1.2
  value_le := h.2

/-- A word goes on with a digit, or it begins with a minus sign. -/
theorem IsBegun.eq_minus (h : IsBegun (w ++ [b])) (hb : digit? b = none) : w = [] ∧ b = 45 := by
  have hmem : b ∉ wordDigits (w ++ [b]) := by
    intro hmem
    have hdigit := h.digits b hmem
    rw [hb] at hdigit
    cases hdigit
  cases w with
  | nil =>
      refine ⟨rfl, ?_⟩
      by_contra hminus
      rw [wordDigits, List.nil_append, List.head?_cons, if_neg (mt Option.some.inj hminus)] at hmem
      exact hmem List.mem_cons_self
  | cons c w =>
      have hlast : b ∈ w ++ [b] := List.mem_append_right w List.mem_cons_self
      rw [wordDigits] at hmem
      split at hmem
      next => exact absurd hlast hmem
      next => exact absurd (List.mem_cons_of_mem c hlast) hmem

/-- What is before the last byte of such a word is one too. -/
theorem IsBegun.of_append_singleton (h : IsBegun (w ++ [b])) : IsBegun w := by
  cases hb : digit? b with
  | none =>
      rw [(h.eq_minus hb).1]
      exact .nil
  | some d =>
      obtain ⟨hblank, hdigits, hvalue⟩ := h
      rw [wordDigits_append_digit hb, List.forall_mem_append] at hdigits
      rw [wordValue_append_digit hb] at hvalue
      exact ⟨fun hmem => hblank (List.mem_append_left _ hmem), hdigits.1, by omega⟩

theorem IsBegun.of_append (h : IsBegun (w ++ t)) : IsBegun w := by
  -- The induction takes off the last byte, since the value builds up from the first.
  induction t using List.reverseRecOn with
  | nil => rwa [List.append_nil] at h
  | append_singleton t b ih =>
      rw [← List.append_assoc] at h
      exact ih h.of_append_singleton

/-- What is before the first blank of a line is the beginning of a word. -/
theorem exists_append_mem_lineWords (hblank : 32 ∉ s) (hne : s ≠ []) (line : List UInt8) :
    ∃ t, s ++ t ∈ lineWords (s ++ line) := by
  cases hfind : line.find? (· == 32) with
  | none =>
      have hline : 32 ∉ line := fun hmem => by simpa using List.find?_eq_none.1 hfind 32 hmem
      rw [lineWords_of_not_mem (by simp [hblank, hline])]
      exact ⟨line, by simp [hne]⟩
  | some b =>
      obtain ⟨hb, t, line, rfl, hword⟩ := List.find?_eq_some_iff_append.1 hfind
      cases eq_of_beq hb
      have hword : 32 ∉ t := fun hmem => by simpa using hword 32 hmem
      rw [← List.append_assoc, lineWords_append_blank,
        lineWords_of_not_mem (by simp [hblank, hword])]
      exact ⟨t, by simp [hne]⟩

/-- A lone minus sign is no numeral. -/
theorem IsReadable.ne_minus (h : IsReadable w) : wordNumeral w ≠ .minus := by
  rw [h.1.wordNumeral_eq]
  simp

/-- A word of a row that is not a lone minus sign can end. -/
theorem wordNumeral_ne_minus (hblank : 32 ∉ s) (hwords : ∀ w ∈ lineWords s, IsReadable w) :
    wordNumeral s ≠ .minus := by
  rw [lineWords_of_not_mem hblank] at hwords
  split at hwords
  next hnil =>
    rw [wordNumeral_eq_absent_iff.2 hnil]
    simp
  next => exact (hwords s List.mem_cons_self).ne_minus

end Dimacs

namespace Reader

variable {r : Reader} {s line text bytes : List UInt8} {b : UInt8} {n : Nat}
  {lines : List (List UInt8)}

/-! ## Rows -/

/-- A byte with which the word in progress can go on is no fault. -/
theorem step_begun (hfault : r.fault = none) (hmode : r.InRow s (b :: line))
    (hs : IsBegun (s ++ [b])) :
    r.step b = r.placed (.clauses (wordNumeral (s ++ [b]))) r.line false := by
  cases hd : digit? b with
  | some d =>
      have hnumeral : numeral? r.mode = some (s.head? == some 45, wordValue s) := by
        rcases hmode with hmode | ⟨hmode, rfl, -⟩
        · rw [hmode, numeral?_wordNumeral]
        · rw [hmode]
          rfl
      have hle := hs.value_le
      rw [wordValue_append_digit hd] at hle
      rw [step_digit hfault hnumeral hd, digit_eq hle, wordNumeral_append_digit hd]
      rfl
  | none =>
      obtain ⟨rfl, rfl⟩ := hs.eq_minus hd
      have hgap : r.AtGap := ⟨hfault, hmode.symm.imp And.left id⟩
      exact hgap.read_minus

/-- A blank ends the word in progress unless that is a minus sign. -/
theorem step_blank (hfault : r.fault = none) (hmode : r.InRow s (32 :: line))
    (hminus : wordNumeral s ≠ .minus) :
    r.step 32 = (r.endWord s).placed (.clauses .absent) r.line r.namesOpen := by
  obtain ⟨atStart, hbyte⟩ : ∃ atStart, r.step 32 = r.clauseByte atStart (wordNumeral s) 32 := by
    rw [step_eq hfault, if_neg (by decide), modeByte]
    rcases hmode with hmode | ⟨hmode, rfl, -⟩
    · rw [hmode]
      exact ⟨false, rfl⟩
    · rw [hmode]
      exact ⟨true, rfl⟩
  rw [hbyte, clauseByte_gap (Or.inl rfl) hminus, if_pos rfl]
  exact endNumeral_inMode r _ _

/-- A row of supported numerals is read without a fault. -/
theorem fault_foldl_step_row (hfault : r.fault = none) (hmode : r.InRow s line) (hs : IsBegun s)
    (hwords : ∀ w ∈ lineWords (s ++ line), IsReadable w) :
    (line.foldl step r).fault = none ∧ (line.foldl step r).mode ≠ .clauses .minus := by
  -- The induction is on the bytes after the word in progress, which each byte changes.
  induction line generalizing r s with
  | nil =>
      rw [List.append_nil] at hwords
      rw [List.foldl_nil]
      refine ⟨hfault, fun hminus => ?_⟩
      rcases hmode with hmode | ⟨hmode, -⟩
      · rw [hmode, Mode.clauses.injEq] at hminus
        exact wordNumeral_ne_minus hs.not_blank hwords hminus
      · rw [hmode] at hminus
        cases hminus
  | cons b line ih =>
      rw [List.foldl_cons]
      by_cases hb : b = 32
      · subst hb
        rw [lineWords_append_blank, List.forall_mem_append] at hwords
        obtain ⟨hword, hwords⟩ := hwords
        rw [step_blank hfault hmode (wordNumeral_ne_minus hs.not_blank hword), endWord,
          endNumeral_eq]
        exact ih hfault (Or.inl rfl) .nil hwords
      · rw [← List.singleton_append, ← List.append_assoc] at hwords
        have hblank : 32 ∉ s ++ [b] := by simp [hs.not_blank, Ne.symm hb]
        obtain ⟨t, hmem⟩ := exists_append_mem_lineWords hblank (by simp) line
        have hbegun : IsBegun (s ++ [b]) := (hwords _ hmem).isBegun.of_append
        rw [step_begun hfault hmode hbegun]
        exact ih hfault (Or.inl rfl) hbegun hwords

theorem fault_foldl_endWord (ws : List (List UInt8)) (r : Reader) :
    (ws.foldl endWord r).fault = r.fault := by
  induction ws generalizing r with
  | nil => rfl
  | cons w ws ih =>
      rw [List.foldl_cons, ih, endWord, endNumeral_eq]

/-! ## Lines -/

/-- The reader, when it is at the start of the line, reads it without a fault. -/
inductive Fits (r : Reader) : List UInt8 → Prop where
  | comment {text : List UInt8}
      (hnaming : r.namesOpen = true → ∀ e ∈ lineNaming? (99 :: text), IsVariable e.1) :
      Fits r (99 :: text)
  | problem {text : List UInt8} {h : Header} (hnone : r.header = none)
      (hheader : lineHeader? (112 :: text) = some h) (hle : h.variableCount ≤ largestVariable) :
      Fits r (112 :: text)
  | row {line : List UInt8} (hcomment : line.head? ≠ some 99) (hproblem : line.head? ≠ some 112)
      (hwords : ∀ w ∈ lineWords line, IsReadable w) : Fits r line

/-- A comment that names nothing or a variable can end. -/
theorem fault_endNaming (hfault : r.fault = none)
    (hnaming : ∀ e ∈ lineNaming? (99 :: text.reverse), IsVariable e.1) :
    (r.endNaming text).fault = none := by
  simp only [endNaming, lineNaming?] at hnaming ⊢
  cases hname : naming? (Utf8.decodeReplacing text.reverse).toList with
  | none => exact hfault
  | some naming =>
      rw [hname] at hnaming
      obtain ⟨hpos, hle⟩ := hnaming _ rfl
      simp only
      rw [if_neg (Nat.not_lt.2 hle), if_neg (Nat.ne_of_gt hpos)]
      exact hfault

/-- A problem line with supported counts can end. -/
theorem fault_endProblem {h : Header} (hfault : r.fault = none)
    (hheader : lineHeader? text.reverse = some h) (hle : h.variableCount ≤ largestVariable) :
    (r.endProblem text).fault = none := by
  rw [lineHeader?] at hheader
  simp only [endProblem, hheader]
  rw [if_neg (Nat.not_lt.2 hle)]
  exact hfault

theorem fault_inMode (r : Reader) (mode : Mode) : (r.inMode mode).fault = r.fault := rfl

/-- A line that fits is read to its end without a fault. -/
theorem Fits.fault_endLine (h : r.Fits line) (hfault : r.fault = none) (hmode : r.mode = .lineStart)
    (hline : ∀ b ∈ line, isLineEnd b = false) (n : Nat) :
    ((line.foldl step r).endLine n).fault = none ∧ (line.foldl step r).mode ≠ .clauses .minus := by
  cases h with
  | @comment text hnaming =>
      obtain ⟨-, htext⟩ := List.forall_mem_cons.1 hline
      rw [List.foldl_cons, step_comment hfault hmode]
      cases hopen : r.namesOpen with
      | false =>
          rw [if_neg Bool.false_ne_true, foldl_step_remark (r := r.inMode .remark) hfault rfl htext]
          exact ⟨hfault, by simp [inMode]⟩
      | true =>
          have hmid := collects_naming.foldl_step (r := r.inMode (.naming [])) htext hfault rfl
          rw [if_pos rfl, hmid, List.append_nil, endLine_naming, fault_inMode]
          refine ⟨fault_endNaming hfault ?_, by simp [inMode]⟩
          rw [List.reverse_reverse]
          exact hnaming hopen
  | @problem text h hnone hheader hle =>
      obtain ⟨-, htext⟩ := List.forall_mem_cons.1 hline
      have hmid := collects_problem.foldl_step (r := (r.inMode (.problem [112])).namesClosed) htext
        hfault rfl
      rw [List.foldl_cons, step_problem hfault hmode hnone, hmid, endLine_problem, fault_inMode]
      refine ⟨fault_endProblem hfault ?_ hle, by simp [inMode]⟩
      rw [List.reverse_append, List.reverse_reverse]
      exact hheader
  | row hcomment hproblem hwords =>
      have hrow : r.InRow [] line := Or.inr ⟨hmode, rfl, hcomment, hproblem⟩
      obtain ⟨hmid, hminus⟩ := fault_foldl_step_row hfault hrow .nil hwords
      obtain ⟨ws, -, -, -, -, hend⟩ := endLine_of_row hfault hrow .nil (fun h => absurd rfl h) hline
        hmid n
      refine ⟨?_, hminus⟩
      rw [hend]
      exact (fault_foldl_endWord ws r).trans hfault

/-- A text is read without a fault if its first line fits and the rest is read without a fault
by whatever reader that line leaves. -/
theorem fault_endMode_of_fits (hfault : r.fault = none) (hmode : r.mode = .lineStart)
    (htext : textLines bytes = line :: lines) (hfits : r.Fits line)
    (hrest : ∀ r' n bytes', ReadsLine r n line [] r' → r'.fault = none → r'.mode = .lineStart →
      textLines bytes' = lines → (bytes'.foldl step r').endMode.fault = none) :
    (bytes.foldl step r).endMode.fault = none := by
  cases hfind : bytes.find? isLineEnd with
  | none =>
      have hline : ∀ b ∈ bytes, isLineEnd b = false := by
        simpa using List.find?_eq_none.1 hfind
      rw [textLines, List.splitOnP_eq_singleton hline, List.cons.injEq] at htext
      obtain ⟨rfl, rfl⟩ := htext
      exact (hfits.fault_endLine hfault hmode hline (bytes.foldl step r).line).1
  | some b =>
      obtain ⟨hb, line', bytes, rfl, hline⟩ := List.find?_eq_some_iff_append.1 hfind
      have hline : ∀ b ∈ line', isLineEnd b = false := by simpa using hline
      rw [textLines, List.splitOnP_append_cons_of_forall_mem hline b hb, List.cons.injEq] at htext
      obtain ⟨rfl, htext⟩ := htext
      rw [List.foldl_append, List.foldl_cons]
      have hmid := fault_of_endLine (hfits.fault_endLine hfault hmode hline 0).1
      have hminus := (hfits.fault_endLine hfault hmode hline 0).2
      obtain ⟨n, hstep⟩ := step_eq_endLine hmid hb hminus
      obtain ⟨hend, -⟩ := hfits.fault_endLine hfault hmode hline n
      obtain ⟨rest, hreads, hnone⟩ := readsLine_of_fault hfault hmode hline n hend
      cases hnone.resolve_right hminus
      rw [hstep]
      exact hrest _ n bytes hreads hend rfl htext

end Reader
end Presence
