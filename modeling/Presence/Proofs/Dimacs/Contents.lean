import Presence.Proofs.Dimacs.Accepted
import Presence.Proofs.Cnf
import Presence.Proofs.NameTable

/-!
# Contents of accepted texts

What an accepted text says can be read off its lines without the reader: the naming comments,
the counts of the problem line, and the numerals of its rows.  Here the state of the reader after
a text is described by these, one kind of data after the other.  Each description is an
induction over the lines (`Reader.Reads`) with the cases of one line as a lemma before it.
-/

namespace Presence

open Dimacs

namespace Dimacs

/-! ## What the lines of a text say -/

/-- The line is a comment, which begins with `c`, or it is blank.  After such lines variables may
still be named. -/
def isLeading (line : List UInt8) : Bool := line.head? == some 99 || line.all (· == 32)

/-- The numbers and names of the naming comments.  They stand before the problem line and the
first numeral. -/
def namings (lines : List (List UInt8)) : List (Nat × String) :=
  (lines.takeWhile isLeading).filterMap lineNaming?

/-- The counts of the problem line, which begins with `p`. -/
def declared? (lines : List (List UInt8)) : Option Header :=
  (lines.find? (·.head? == some 112)).bind lineHeader?

/-- The words of a line unless it is a comment or a problem line. -/
def rowWords (line : List UInt8) : List (List UInt8) :=
  if line.head? = some 99 ∨ line.head? = some 112 then [] else lineWords line

/-- The words outside of comments and the problem line. -/
def textWords (lines : List (List UInt8)) : List (List UInt8) := lines.flatMap rowWords

/-- The literal that a numeral writes, if it is not 0. -/
def wordLiteral? (w : List UInt8) : Option Literal :=
  if wordValue w = 0 then none else some ⟨wordValue w, w.head? != some 45⟩

variable {line : List UInt8} {lines : List (List UInt8)}

theorem lineNaming?_eq_none (h : line.head? ≠ some 99) : lineNaming? line = none := by
  unfold lineNaming?
  split
  · exact absurd rfl h
  · rfl

theorem lineNaming?_of_not_isLeading (h : isLeading line = false) : lineNaming? line = none := by
  refine lineNaming?_eq_none fun hcomment => ?_
  rw [isLeading, hcomment] at h
  cases h

/-- While names are taken, the namings of a line come before those of the lines after it. -/
theorem namings_cons (isOpen : Bool) (line : List UInt8) (lines : List (List UInt8)) :
    (if isOpen then namings (line :: lines) else []) =
      (if isOpen then (lineNaming? line).toList else []) ++
        if isOpen && isLeading line then namings lines else [] := by
  cases isOpen with
  | false => rfl
  | true =>
      rw [if_pos rfl, if_pos rfl, namings, List.takeWhile_cons, Bool.true_and]
      cases hlead : isLeading line with
      | false =>
          rw [lineNaming?_of_not_isLeading hlead]
          rfl
      | true =>
          rw [if_pos rfl, if_pos rfl, List.filterMap_cons]
          cases lineNaming? line with
          | none => rfl
          | some e => rfl

theorem namings_singleton (line : List UInt8) : namings [line] = (lineNaming? line).toList := by
  have hsplit := namings_cons true line []
  have hnil : (if true && isLeading line then namings [] else []) = [] := ite_self _
  rw [hnil, List.append_nil] at hsplit
  exact hsplit

end Dimacs

namespace Reader

variable {r r' : Reader} {n k : Nat} {line : List UInt8} {w : List UInt8}
  {lines rest ws : List (List UInt8)}

/-! ## Names -/

/-- The entries of a row of namings are paired in turn, with the stem before their names. -/
def named (t : NameTable) (stem : String) (entries : List (Nat × String)) : NameTable :=
  entries.foldl (fun t e => t.insert (stem ++ e.2) e.1) t

theorem endWord_names (r : Reader) (w : List UInt8) :
    (r.endWord w).names = r.names ∧ (r.endWord w).header = r.header ∧
      (r.endWord w).stem = r.stem := by
  rw [endWord, endNumeral_eq]
  exact ⟨rfl, rfl, rfl⟩

theorem foldl_endWord_names (ws : List (List UInt8)) (r : Reader) :
    (ws.foldl endWord r).names = r.names ∧ (ws.foldl endWord r).header = r.header ∧
      (ws.foldl endWord r).stem = r.stem := by
  induction ws generalizing r with
  | nil => exact ⟨rfl, rfl, rfl⟩
  | cons w ws ih =>
      obtain ⟨hnames, hheader, hstem⟩ := ih (r.endWord w)
      obtain ⟨hnames', hheader', hstem'⟩ := endWord_names r w
      exact ⟨hnames.trans hnames', hheader.trans hheader', hstem.trans hstem'⟩

/-- A line pairs the number and the name of its naming comment, as long as names are taken. -/
theorem ReadsLine.names (h : ReadsLine r n line rest r') :
    r'.names = named r.names r.stem (if r.namesOpen then (lineNaming? line).toList else []) ∧
      r'.namesOpen = (r.namesOpen && isLeading line) ∧ r'.stem = r.stem ∧
      (r.namesOpen = true → ∀ e ∈ lineNaming? line, IsVariable e.1 ∧ IsPlainName e.2) := by
  cases h with
  | @remark text hnaming =>
      refine ⟨?_, (Bool.and_true _).symm, rfl, fun hopen => by simp [hnaming hopen]⟩
      split
      next hopen =>
        rw [hnaming hopen]
        rfl
      next => rfl
  | @naming text k name hopen hnaming hk hname =>
      refine ⟨?_, (Bool.and_true _).symm, rfl, fun _ e he => ?_⟩
      · rw [if_pos hopen, hnaming]
        rfl
      · rw [hnaming] at he
        cases he
        exact ⟨hk, hname⟩
  | @problem text h hnone hheader hle =>
      have hnaming : lineNaming? (112 :: text) = none := rfl
      refine ⟨?_, (Bool.and_false _).symm, rfl, fun _ => by simp [hnaming]⟩
      rw [hnaming]
      split
      · rfl
      · rfl
  | @row _ ws _ hcomment hproblem hwords hws hrest =>
      obtain ⟨hnames, -, hstem⟩ := foldl_endWord_names ws r
      have hnaming := lineNaming?_eq_none hcomment
      refine ⟨?_, ?_, hstem, fun _ => by simp [hnaming]⟩
      · rw [hnaming]
        split
        · exact hnames
        · exact hnames
      · have hlead : isLeading line = line.all (· == 32) := by
          rw [isLeading, beq_eq_false_iff_ne.2 hcomment, Bool.false_or]
        rw [hlead]
        rfl

theorem mark_named (t : NameTable) (stem : String) (entries : List (Nat × String)) :
    (named t stem entries).mark = (entries.map Prod.fst).foldl max t.mark := by
  induction entries generalizing t with
  | nil => rfl
  | cons e entries ih => exact ih (t.insert (stem ++ e.2) e.1)

/-- Every entry was there before or is one of the namings. -/
theorem number?_named {t : NameTable} {stem n : String} {entries : List (Nat × String)}
    (h : (named t stem entries).number? n = some k) :
    t.number? n = some k ∨ ∃ name, n = stem ++ name ∧ (k, name) ∈ entries := by
  induction entries generalizing t with
  | nil => exact Or.inl h
  | cons e entries ih =>
      obtain ⟨number, name⟩ := e
      rcases ih h with hold | ⟨name', hn, hmem⟩
      · rcases NameTable.number?_insert_eq_some_iff.1 hold with ⟨rfl, rfl⟩ | ⟨-, -, hold⟩
        · exact Or.inr ⟨name, rfl, List.mem_cons_self⟩
        · exact Or.inl hold
      · exact Or.inr ⟨name', hn, List.mem_cons_of_mem _ hmem⟩

theorem named_append (t : NameTable) (stem : String) (es es' : List (Nat × String)) :
    named t stem (es ++ es') = named (named t stem es) stem es' := List.foldl_append

/-- The names of a text are those of its naming comments. -/
theorem Reads.names (h : Reads r lines rest r') :
    r'.names = named r.names r.stem (if r.namesOpen then namings lines else []) ∧
      (r.namesOpen = true → ∀ e ∈ namings lines, IsVariable e.1 ∧ IsPlainName e.2) := by
  induction h with
  | @last r r' n line rest h =>
      obtain ⟨hnames, -, -, hentries⟩ := h.names
      rw [namings_singleton]
      exact ⟨hnames, fun hopen e he => hentries hopen e (Option.mem_toList.1 he)⟩
  | @cons r r' r'' n line lines rest h hs ih =>
      obtain ⟨hnames, hopen', hstem, hentries⟩ := h.names
      obtain ⟨ihnames, ihentries⟩ := ih
      refine ⟨?_, fun hopen e he => ?_⟩
      · rw [namings_cons, named_append, ← hnames, ← hopen', ← hstem]
        exact ihnames
      · have hsplit := namings_cons true line lines
        rw [if_pos rfl] at hsplit
        rw [hsplit, List.mem_append] at he
        rcases he with he | he
        · exact hentries hopen e (Option.mem_toList.1 he)
        · rw [hopen] at hopen'
          rw [← hopen'] at he
          split at he
          next hstill => exact ihentries hstill e he
          next => cases he

/-! ## Counts -/

theorem ReadsLine.header (h : ReadsLine r n line rest r') :
    (line.head? = some 112 ∧ r.header = none ∧
        ∃ h, lineHeader? line = some h ∧ r'.header = some h) ∨
      line.head? ≠ some 112 ∧ r'.header = r.header := by
  cases h with
  | remark => exact Or.inr ⟨by simp, rfl⟩
  | naming => exact Or.inr ⟨by simp, rfl⟩
  | @problem text h hnone hheader hle => exact Or.inl ⟨rfl, hnone, h, hheader, rfl⟩
  | @row _ ws _ hcomment hproblem hwords hws hrest =>
      exact Or.inr ⟨hproblem, (foldl_endWord_names ws r).2.1⟩

/-- The counts are those of the problem line. -/
theorem Reads.header (h : Reads r lines rest r') : r'.header = r.header.or (declared? lines) := by
  induction h with
  | @last r r' n line rest h =>
      rcases h.header with ⟨hproblem, hnone, h, hheader, heq⟩ | ⟨hproblem, heq⟩
      · simp [declared?, hproblem, hnone, hheader, heq]
      · simp [declared?, hproblem, heq]
  | @cons r r' r'' n line lines rest h hs ih =>
      rcases h.header with ⟨hproblem, hnone, h, hheader, heq⟩ | ⟨hproblem, heq⟩
      · simp [declared?, hproblem, hnone, hheader, ih, heq]
      · simp [declared?, hproblem, ih, heq]

/-- Every line that begins like a problem line is the one that declares the counts. -/
theorem Reads.header_of_mem (h : Reads r lines rest r') (hline : line ∈ lines)
    (hproblem : line.head? = some 112) : ∃ h, lineHeader? line = some h ∧ r'.header = some h := by
  induction h with
  | @last r r' n line' rest hread =>
      cases List.mem_singleton.1 hline
      rcases hread.header with ⟨-, -, h⟩ | ⟨hother, -⟩
      · exact h
      · exact absurd hproblem hother
  | @cons r r' r'' n line' lines rest hread hs ih =>
      rcases List.mem_cons.1 hline with rfl | hline
      · rcases hread.header with ⟨-, -, h, hheader, heq⟩ | ⟨hother, -⟩
        · exact ⟨h, hheader, by rw [hs.header, heq, Option.some_or]⟩
        · exact absurd hproblem hother
      · exact ih hline

/-- The numbers of clauses and of variables are exact. -/
structure Tallies (r : Reader) : Prop where
  clauseCount : r.clauseCount = r.cnf.clauses.size
  declared_le : ∀ h, r.header = some h → h.variableCount ≤ largestVariable
  variableCount_le_iff : ∀ n, r.cnf.variableCount ≤ n ↔
    (∀ h, r.header = some h → h.variableCount ≤ n) ∧ ∀ c ∈ r.cnf.clauses, ∀ l ∈ c, l.number ≤ n

theorem tallies_start (stem : String) : Tallies { stem } := by
  refine ⟨rfl, fun h hheader => ?_, fun n => ?_⟩
  · cases hheader
  · simp [Cnf.ofCount]

theorem Tallies.endWord (h : r.Tallies) (w : List UInt8) : (r.endWord w).Tallies := by
  rw [Reader.endWord]
  cases wordNumeral w with
  | absent | minus => exact h
  | digits negative value =>
      rw [endNumeral]
      split
      · refine ⟨?_, h.declared_le, fun n => ?_⟩
        · rw [Cnf.add, Array.size_push, h.clauseCount]
        · have hadd : max r.cnf.variableCount (Clause.largest r.literals.reverse) ≤ n ↔
              r.cnf.variableCount ≤ n ∧ ∀ l ∈ r.literals.reverse, l.number ≤ n := by
            rw [← Clause.largest_le_iff]
            exact Nat.max_le
          simp only [hadd, h.variableCount_le_iff n, Cnf.add, Array.mem_push, or_imp,
            forall_and, forall_eq, and_assoc]
      · exact ⟨h.clauseCount, h.declared_le, h.variableCount_le_iff⟩

theorem Tallies.foldl_endWord (h : r.Tallies) (ws : List (List UInt8)) :
    (ws.foldl Reader.endWord r).Tallies := by
  induction ws generalizing r with
  | nil => exact h
  | cons w ws ih => exact ih (h.endWord w)

theorem ReadsLine.tallies (h : ReadsLine r n line rest r') (hr : r.Tallies) : r'.Tallies := by
  cases h with
  | remark => exact ⟨hr.clauseCount, hr.declared_le, hr.variableCount_le_iff⟩
  | naming => exact ⟨hr.clauseCount, hr.declared_le, hr.variableCount_le_iff⟩
  | @problem text h hnone hheader hle =>
      refine ⟨hr.clauseCount, ?_, fun n => ?_⟩
      · rintro _ ⟨⟩
        exact hle
      · have hreserve : max r.cnf.variableCount h.variableCount ≤ n ↔
            r.cnf.variableCount ≤ n ∧ h.variableCount ≤ n := Nat.max_le
        have hold := hr.variableCount_le_iff n
        rw [hnone] at hold
        simp only [reduceCtorEq, false_imp_iff, implies_true, true_and] at hold
        simp only [placed, Cnf.reserve, hreserve, hold, Option.some.injEq, forall_eq', and_comm]
  | @row _ ws _ hcomment hproblem hwords hws hrest =>
      have hfold := hr.foldl_endWord ws
      exact ⟨hfold.clauseCount, hfold.declared_le, hfold.variableCount_le_iff⟩

theorem Reads.tallies (h : Reads r lines rest r') (hr : r.Tallies) : r'.Tallies := by
  induction h with
  | last h => exact h.tallies hr
  | cons h _ ih => exact ih (h.tallies hr)

/-! ## Literals -/

/-- The literals read so far, those of the clause in progress last. -/
def literalsRead (r : Reader) : List Literal := r.cnf.clauses.toList.flatten ++ r.literals.reverse

theorem literalsRead_endWord (hw : IsNumeral w) (r : Reader) :
    (r.endWord w).literalsRead = r.literalsRead ++ (wordLiteral? w).toList := by
  rw [endWord, hw.wordNumeral_eq, endNumeral, wordLiteral?]
  split
  next hzero =>
    simp [literalsRead, Cnf.add]
  next hvalue =>
    simp [literalsRead, bne]

theorem literalsRead_foldl_endWord (hws : ∀ w ∈ ws, IsReadable w) (r : Reader) :
    (ws.foldl endWord r).literalsRead = r.literalsRead ++ ws.filterMap wordLiteral? := by
  induction ws generalizing r with
  | nil => simp
  | cons w ws ih =>
      obtain ⟨hw, hws⟩ := List.forall_mem_cons.1 hws
      rw [List.foldl_cons, ih hws, literalsRead_endWord hw.1, List.append_assoc]
      congr 1
      rw [List.filterMap_cons]
      cases wordLiteral? w with
      | none => rfl
      | some l => rfl

/-- The readers have the same clauses and the same clause in progress. -/
def SameClauses (r q : Reader) : Prop := r.literals = q.literals ∧ r.cnf.clauses = q.cnf.clauses

theorem SameClauses.endWord {q : Reader} (h : SameClauses r q) (w : List UInt8) :
    SameClauses (r.endWord w) (q.endWord w) := by
  obtain ⟨hliterals, hclauses⟩ := h
  rw [Reader.endWord, Reader.endWord]
  cases wordNumeral w with
  | absent | minus => exact ⟨hliterals, hclauses⟩
  | digits negative value =>
      rw [endNumeral, endNumeral]
      split
      · refine ⟨rfl, ?_⟩
        show r.cnf.clauses.push r.literals.reverse = q.cnf.clauses.push q.literals.reverse
        rw [hclauses, hliterals]
      · exact ⟨congrArg (List.cons _) hliterals, hclauses⟩

theorem SameClauses.foldl_endWord {q : Reader} (h : SameClauses r q) (ws : List (List UInt8)) :
    SameClauses (ws.foldl Reader.endWord r) (ws.foldl Reader.endWord q) := by
  induction ws generalizing r q with
  | nil => exact h
  | cons w ws ih => exact ih (h.endWord w)

/-- The words of a line are numerals, and the reader ends them in turn. -/
theorem ReadsLine.words (h : ReadsLine r n line rest r') :
    ∃ ws, rowWords line = ws ++ rest ∧ (∀ w ∈ ws, IsReadable w) ∧ (rest = [] ∨ rest = [[45]]) ∧
      SameClauses r' (ws.foldl endWord r) := by
  cases h with
  | remark | naming | problem => exact ⟨[], rfl, by simp, Or.inl rfl, rfl, rfl⟩
  | @row _ ws _ hcomment hproblem hwords hws hrest =>
      have hrow : rowWords line = lineWords line := if_neg (not_or.2 ⟨hcomment, hproblem⟩)
      exact ⟨ws, hrow.trans hwords, hws, hrest, rfl, rfl⟩

/-- The words of a text are numerals, but for what is left over at the end. -/
theorem Reads.words (h : Reads r lines rest r') :
    ∃ ws, textWords lines = ws ++ rest ∧ (∀ w ∈ ws, IsReadable w) ∧ (rest = [] ∨ rest = [[45]]) ∧
      SameClauses r' (ws.foldl endWord r) := by
  induction h with
  | @last r r' n line rest h =>
      have hsingle : textWords [line] = rowWords line := by
        rw [textWords, List.flatMap_cons, List.flatMap_nil, List.append_nil]
      rw [hsingle]
      exact h.words
  | @cons r r' r'' n line lines rest h hs ih =>
      obtain ⟨ws, hwords, hws, -, hsame⟩ := h.words
      obtain ⟨ws', hwords', hws', hrest, hsame'⟩ := ih
      have hnext := hsame.foldl_endWord ws'
      refine ⟨ws ++ ws', ?_, List.forall_mem_append.2 ⟨hws, hws'⟩, hrest, ?_⟩
      · rw [List.append_nil] at hwords
        rw [textWords, List.flatMap_cons, hwords, List.append_assoc]
        exact congrArg (ws ++ ·) hwords'
      · rw [List.foldl_append]
        exact ⟨hsame'.1.trans hnext.1, hsame'.2.trans hnext.2⟩

/-- No other number than that of a variable is used by a literal. -/
theorem Reads.isVariable (h : Reads r lines rest r') :
    ∀ l ∈ (textWords lines).filterMap wordLiteral?, IsVariable l.number := by
  obtain ⟨ws, hwords, hws, hrest, -⟩ := h.words
  intro l hl
  obtain ⟨w, hw, hliteral⟩ := List.mem_filterMap.1 hl
  rw [wordLiteral?] at hliteral
  split at hliteral
  next => cases hliteral
  next hvalue =>
    cases hliteral
    rw [hwords, List.mem_append] at hw
    rcases hw with hw | hw
    · exact ⟨Nat.pos_of_ne_zero hvalue, (hws w hw).2⟩
    -- A lone minus sign has the value 0.
    · rcases hrest with rfl | rfl
      · cases hw
      · cases List.mem_singleton.1 hw
        exact absurd rfl hvalue

/-- The literals of a text are its numerals other than 0. -/
theorem Reads.literalsRead (h : Reads r lines rest r') :
    r'.literalsRead = r.literalsRead ++ (textWords lines).filterMap wordLiteral? := by
  obtain ⟨ws, hwords, hws, hrest, hliterals, hclauses⟩ := h.words
  have hleft : rest.filterMap wordLiteral? = [] := by
    rcases hrest with rfl | rfl
    · rfl
    · rfl
  rw [hwords, List.filterMap_append, hleft, List.append_nil, ← literalsRead_foldl_endWord hws,
    Reader.literalsRead, hliterals, hclauses]
  rfl

/-- The clauses of a text hold these literals and no others, in the same order. -/
theorem Reads.flatten_clauses {stem : String} (h : Reads { stem } lines rest r)
    (hliterals : r.literals = []) :
    r.cnf.clauses.toList.flatten = (textWords lines).filterMap wordLiteral? := by
  have hread := h.literalsRead
  rw [Reader.literalsRead, hliterals, List.reverse_nil, List.append_nil] at hread
  exact hread

/-- After the last numeral of a text no clause is in progress only if it is 0. -/
theorem wordValue_getLast? (hws : ∀ w ∈ ws, IsReadable w)
    (hliterals : (ws.foldl endWord r).literals = []) : ∀ w ∈ ws.getLast?, wordValue w = 0 := by
  intro w hw
  obtain ⟨ws, rfl⟩ := List.getLast?_eq_some_iff.1 hw
  obtain ⟨hnumeral, -⟩ := hws w (List.mem_append_right _ List.mem_cons_self)
  rw [List.foldl_append, List.foldl_cons, List.foldl_nil, endWord, hnumeral.wordNumeral_eq,
    endNumeral] at hliterals
  by_contra hvalue
  rw [if_neg hvalue] at hliterals
  cases hliterals

end Reader
end Presence
