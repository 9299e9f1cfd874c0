import Presence.Dimacs.Reader
import Presence.Dimacs.Writer
import Presence.Proofs.Text.Fields
import Presence.Proofs.Text.Utf8

/-!
# Reading written lines

Each line that the writer makes does one thing to a reader at the start of a line: a
naming comment names one variable (`AtLine.read_namingLine`), the problem line declares
its counts (`AtLine.read_header`), and the line of a clause adds the clause
(`AtGap.read_clause`).  Otherwise the reader only counts the line and closes the naming of
variables.

A naming comment and the problem line are collected byte by byte and looked at when they
end (`Collects`).  Numerals are read as they come, one digit after the other.
-/

namespace Presence

open Dimacs

/-! ## What can be written -/

/-- The numbers of variables. -/
def IsVariable (k : Nat) : Prop := 0 < k ∧ k ≤ largestVariable

instance : DecidablePred IsVariable := fun k =>
  inferInstanceAs (Decidable (0 < k ∧ k ≤ largestVariable))

/-- A text without line ends. -/
def IsOneLine (text : String) : Prop := '\n' ∉ text.toList ∧ '\r' ∉ text.toList

instance : DecidablePred IsOneLine := fun text =>
  inferInstanceAs (Decidable ('\n' ∉ text.toList ∧ '\r' ∉ text.toList))

theorem isOneLine_append {s t : String} : IsOneLine (s ++ t) ↔ IsOneLine s ∧ IsOneLine t := by
  simp only [IsOneLine, String.toList_append, List.mem_append, not_or]
  exact and_and_and_comm

theorem isOneLine_toString (n : Nat) : IsOneLine (toString n) := by
  constructor <;>
  · intro hc
    cases Count.isDigit_of_mem_toString hc

theorem IsOneLine.isLineEnd_eq_false {text : String} (h : IsOneLine text) :
    ∀ b ∈ Utf8.encode text, Reader.isLineEnd b = false := by
  intro b hb
  rw [Reader.isLineEnd, Bool.or_eq_false_iff, beq_eq_false_iff_ne, beq_eq_false_iff_ne]
  constructor
  · rintro rfl
    exact h.1 (Utf8.ofNat_toNat_mem_of_mem_encode hb (by decide))
  · rintro rfl
    exact h.2 (Utf8.ofNat_toNat_mem_of_mem_encode hb (by decide))

/-- The name can stand at the end of a line: it is not empty, has no line end and does not end
in a blank. -/
structure IsPlainName (name : String) : Prop where
  ne_empty : name ≠ ""
  isOneLine : IsOneLine name
  last_not_blank : name.toList.getLast?.any isBlankChar = false

instance : DecidablePred IsPlainName := fun name =>
  decidable_of_iff
    (name ≠ "" ∧ IsOneLine name ∧ name.toList.getLast?.any isBlankChar = false)
    ⟨fun ⟨hne, hline, hlast⟩ => ⟨hne, hline, hlast⟩,
      fun h => ⟨h.ne_empty, h.isOneLine, h.last_not_blank⟩⟩

namespace Reader

/-- Reads the bytes of a text. -/
def read (r : Reader) (text : String) : Reader := (Utf8.encode text).foldl step r

variable {r : Reader} {negative : Bool} {value d n : Nat} {b : UInt8}

theorem read_append (r : Reader) (s t : String) : r.read (s ++ t) = (r.read s).read t := by
  rw [read, Utf8.encode_append, List.foldl_append]
  rfl

theorem read_eq_foldl (r : Reader) (text : String) :
    r.read text = text.toList.foldl (fun r c => (String.utf8EncodeChar c).foldl step r) r := by
  rw [read, Utf8.encode_eq_flatMap, List.foldl_flatMap]

theorem read_join (r : Reader) (texts : List String) :
    r.read (String.join texts) = texts.foldl read r := by
  have hread : read = fun r text =>
      text.toList.foldl (fun r c => (String.utf8EncodeChar c).foldl step r) r :=
    funext₂ read_eq_foldl
  rw [read_eq_foldl, String.toList_join, List.foldl_flatMap, hread]

/-- The reader in the middle of something else. -/
def inMode (r : Reader) (mode : Mode) : Reader := { r with mode }

/-- The reader on the next line. -/
def onNextLine (r : Reader) : Reader := { r with line := r.line + 1 }

/-- The reader that takes no more names. -/
def namesClosed (r : Reader) : Reader := { r with namesOpen := false }

theorem step_eq (hfault : r.fault = none) (b : UInt8) :
    r.step b = modeByte (if b = 10 then r.onNextLine else r) b := by
  have hgoes : ¬r.fault.isSome = true := by
    rw [hfault]
    exact nofun
  exact if_neg hgoes

/-! ## Numerals -/

/-- The sign and the value of the numeral that a digit goes on with. -/
def numeral? : Mode → Option (Bool × Nat)
  | .lineStart | .clauses .absent => some (false, 0)
  | .clauses .minus => some (true, 0)
  | .clauses (.digits negative value) => some (negative, value)
  | _ => none

theorem step_digit (hfault : r.fault = none) (hmode : numeral? r.mode = some (negative, value))
    (hb : digit? b = some d) : r.step b = r.digit negative value d := by
  have hline : b ≠ 10 := by
    rintro rfl
    cases hb
  rw [step_eq hfault, if_neg hline, modeByte]
  generalize r.mode = mode at hmode
  cases mode with
  | lineStart =>
      cases hmode
      simp only [clauseByte, hb]
  | clauses pending => cases pending <;> cases hmode <;> simp only [clauseByte, hb]
  | naming | remark | problem => cases hmode

/-- The byte of a digit. -/
theorem utf8EncodeChar_digitChar :
    ∀ d < 10, String.utf8EncodeChar (Nat.digitChar d) = [UInt8.ofNat (48 + d)] ∧
      digit? (UInt8.ofNat (48 + d)) = some d := by
  decide

/-- The reader in the middle of a numeral. -/
def inNumeral (r : Reader) (negative : Bool) (value : Nat) : Reader :=
  (r.inMode (.clauses (.digits negative value))).namesClosed

theorem digit_eq (h : value * 10 + d ≤ largestVariable) :
    r.digit negative value d = r.inNumeral negative (value * 10 + d) := by
  rw [digit, if_pos h]
  rfl

theorem read_digitChar (hfault : r.fault = none)
    (hmode : numeral? r.mode = some (negative, value)) (hd : d < 10)
    (h : value * 10 + d ≤ largestVariable) :
    (String.utf8EncodeChar d.digitChar).foldl step r = r.inNumeral negative (value * 10 + d) := by
  obtain ⟨hchar, hbyte⟩ := utf8EncodeChar_digitChar d hd
  rw [hchar, List.foldl_cons, List.foldl_nil, step_digit hfault hmode hbyte, digit_eq h]

/-- Where a numeral can begin, a number is read as its value. -/
theorem read_number (hfault : r.fault = none) (hmode : numeral? r.mode = some (negative, 0))
    (hn : n ≤ largestVariable) : r.read (toString n) = r.inNumeral negative n := by
  rw [read_eq_foldl, toList_toString]
  refine foldl_toDigits (r.inNumeral negative) (fun d hd hle => ?_) fun v d hd hle => ?_
  · have hfirst := read_digitChar hfault hmode hd (by omega)
    rw [Nat.zero_mul, Nat.zero_add] at hfirst
    exact hfirst
  · have hmode : numeral? (r.inNumeral negative v).mode = some (negative, v) := rfl
    exact read_digitChar (r := r.inNumeral negative v) hfault hmode hd (by omega)

/-- The reader has not stopped, and nothing is in progress but perhaps a clause. -/
structure AtGap (r : Reader) : Prop where
  fault : r.fault = none
  mode : r.mode = .lineStart ∨ r.mode = .clauses .absent

/-- The reader after a minus sign. -/
def afterMinus (r : Reader) : Reader := (r.inMode (.clauses .minus)).namesClosed

namespace AtGap

theorem numeral?_mode (h : r.AtGap) : numeral? r.mode = some (false, 0) := by
  rcases h.mode with hmode | hmode <;> rw [hmode] <;> rfl

theorem read_minus (h : r.AtGap) : r.read "-" = r.afterMinus := by
  have hstep : r.read "-" = r.step 45 := rfl
  rw [hstep, step_eq h.fault, if_neg (by decide), modeByte]
  rcases h.mode with hmode | hmode <;> rw [hmode] <;> rfl

end AtGap

/-- A blank ends a numeral. -/
theorem read_blank (hfault : r.fault = none) (hmode : r.mode = .clauses (.digits negative value)) :
    r.read " " = (r.endNumeral (.digits negative value)).inMode (.clauses .absent) := by
  have hstep : r.read " " = r.step 32 := rfl
  rw [hstep, step_eq hfault, if_neg (by decide), modeByte, hmode]
  rfl

/-- A line feed ends a numeral and counts the line. -/
theorem read_lineFeed (hfault : r.fault = none)
    (hmode : r.mode = .clauses (.digits negative value)) :
    r.read "\n" = (r.onNextLine.endNumeral (.digits negative value)).inMode .lineStart := by
  have hstep : r.read "\n" = r.step 10 := rfl
  have hnext : r.onNextLine.mode = .clauses (.digits negative value) := hmode
  rw [hstep, step_eq hfault, if_pos rfl, modeByte, hnext]
  rfl

/-! ## Clauses -/

/-- The reader with one more literal of the clause in progress. -/
def afterLiteral (r : Reader) (l : Literal) : Reader :=
  { (r.inMode (.clauses .absent)).namesClosed with literals := l :: r.literals }

theorem AtGap.read_literal (h : r.AtGap) {l : Literal} (hl : IsVariable l.number) :
    r.read (l.render ++ " ") = r.afterLiteral l := by
  obtain ⟨number, positive⟩ := l
  obtain ⟨hpos, hle⟩ := hl
  have hnumber : r.read (Literal.render ⟨number, positive⟩) = r.inNumeral (!positive) number := by
    cases positive with
    | true => exact read_number h.fault h.numeral?_mode hle
    | false =>
        rw [Literal.render, if_neg Bool.false_ne_true, read_append, h.read_minus]
        exact read_number (r := r.afterMinus) h.fault rfl hle
  rw [read_append, hnumber, read_blank (r := r.inNumeral (!positive) number) h.fault rfl,
    endNumeral, if_neg (Nat.ne_of_gt hpos), Bool.not_not]
  rfl

/-- The reader after the line of a clause that ends the one in progress. -/
def afterClause (r : Reader) (c : Clause) : Reader :=
  { (r.onNextLine.inMode .lineStart).namesClosed with
    cnf := r.cnf.add (r.literals.reverse ++ c)
    literals := []
    clauseCount := r.clauseCount + 1 }

theorem afterClause_afterLiteral (r : Reader) (l : Literal) (c : Clause) :
    (r.afterLiteral l).afterClause c = r.afterClause (l :: c) := by
  simp only [afterLiteral, afterClause, List.reverse_cons, List.append_assoc,
    List.singleton_append]
  rfl

/-- The line of a clause adds the literals in progress and its own as one clause. -/
theorem AtGap.read_clause (h : r.AtGap) {c : Clause}
    (hc : ∀ l ∈ c, IsVariable l.number) : r.read c.render = r.afterClause c := by
  -- The reader is general, since each literal joins those in progress.
  induction c generalizing r with
  | nil =>
      have hrender : Clause.render [] = toString 0 ++ "\n" := rfl
      have hzero := read_number h.fault h.numeral?_mode (Nat.zero_le largestVariable)
      rw [hrender, read_append, hzero, read_lineFeed (r := r.inNumeral false 0) h.fault rfl,
        afterClause, List.append_nil]
      rfl
  | cons l c ih =>
      obtain ⟨hl, hc⟩ := List.forall_mem_cons.1 hc
      have hrender : Clause.render (l :: c) = l.render ++ " " ++ Clause.render c := by
        rw [Clause.render, List.map_cons, String.join_cons, String.append_assoc]
        rfl
      have hgap : (r.afterLiteral l).AtGap := ⟨h.fault, Or.inr rfl⟩
      rw [hrender, read_append, h.read_literal hl, ih hgap hc, afterClause_afterLiteral]

/-! ## Lines of text -/

/-- A mode collects the bytes of a line, the last byte first, and ends the line with them. -/
def Collects (wrap : List UInt8 → Mode) (close : Reader → List UInt8 → Reader) : Prop :=
  ∀ (r : Reader) (text : List UInt8) (b : UInt8), r.mode = wrap text →
    r.modeByte b = if isLineEnd b then close r text else r.inMode (wrap (b :: text))

theorem collects_naming : Collects .naming endNaming := by
  intro r text b hmode
  rw [modeByte, hmode]
  rfl

theorem collects_problem : Collects .problem endProblem := by
  intro r text b hmode
  rw [modeByte, hmode]
  rfl

variable {wrap : List UInt8 → Mode} {close : Reader → List UInt8 → Reader}

theorem Collects.foldl_step (h : Collects wrap close) {bytes text : List UInt8}
    (hbytes : ∀ b ∈ bytes, isLineEnd b = false) (hfault : r.fault = none)
    (hmode : r.mode = wrap text) :
    bytes.foldl step r = r.inMode (wrap (bytes.reverse ++ text)) := by
  induction bytes generalizing r text with
  | nil =>
      rw [List.foldl_nil, List.reverse_nil, List.nil_append, ← hmode]
      rfl
  | cons b bytes ih =>
      obtain ⟨hb, hbytes⟩ := List.forall_mem_cons.1 hbytes
      have hline : b ≠ 10 := by
        rintro rfl
        cases hb
      have hstep : r.step b = r.inMode (wrap (b :: text)) := by
        rw [step_eq hfault, if_neg hline, h r text b hmode, hb]
        rfl
      rw [List.foldl_cons, hstep, ih (r := r.inMode (wrap (b :: text))) hbytes hfault rfl,
        List.reverse_cons, List.append_assoc, List.singleton_append]
      rfl

/-- The rest of a line of text is collected whole. -/
theorem Collects.read (h : Collects wrap close) {text : String} (htext : IsOneLine text)
    {start : List UInt8} (hfault : r.fault = none) (hmode : r.mode = wrap start) :
    r.read (text ++ "\n") =
      close (r.onNextLine.inMode (wrap ((Utf8.encode text).reverse ++ start)))
        ((Utf8.encode text).reverse ++ start) := by
  have hbody : r.read text = r.inMode (wrap ((Utf8.encode text).reverse ++ start)) :=
    h.foldl_step htext.isLineEnd_eq_false hfault hmode
  generalize (Utf8.encode text).reverse ++ start = bytes at hbody ⊢
  have hstep : (r.inMode (wrap bytes)).read "\n" = (r.inMode (wrap bytes)).step 10 := rfl
  rw [read_append, hbody, hstep, step_eq (r := r.inMode (wrap bytes)) hfault, if_pos rfl]
  exact h (r.onNextLine.inMode (wrap bytes)) bytes 10 rfl

/-- The reader has not stopped, and nothing is in progress. -/
structure AtLine (r : Reader) : Prop where
  fault : r.fault = none
  mode : r.mode = .lineStart
  literals : r.literals = []

/-! ## Naming comments -/

/-- A comment may name a variable as long as names are taken. -/
theorem step_comment (hfault : r.fault = none) (hmode : r.mode = .lineStart) :
    r.step 99 = r.inMode (if r.namesOpen then .naming [] else .remark) := by
  rw [step_eq hfault, if_neg (by decide), modeByte, hmode]
  rfl

/-- A comment is read as its text. -/
theorem AtLine.read_comment (h : r.AtLine) (hopen : r.namesOpen = true) {text : String}
    (htext : IsOneLine text) :
    r.read ("c" ++ (text ++ "\n")) = r.onNextLine.endNaming (Utf8.encode text).reverse := by
  have hbegin : r.read "c" = r.inMode (.naming []) := by
    have hstep : r.read "c" = r.step 99 := rfl
    rw [hstep, step_comment h.fault h.mode, hopen, if_pos rfl]
  have hrest := collects_naming.read (r := r.inMode (.naming [])) htext h.fault rfl
  rw [read_append, hbegin, hrest, List.append_nil]
  rfl

/-- A naming comment gives its number and its name back. -/
theorem naming?_render (k : Nat) {name : String} (h : IsPlainName name) :
    naming? (" " ++ toString k ++ " " ++ name).toList =
      some ((toString k).toList, name.toList) := by
  have hname : name.toList.isEmpty = false := by
    rw [List.isEmpty_eq_false_iff]
    exact fun hnil => h.ne_empty (String.toList_eq_nil_iff.1 hnil)
  have hnumber : (toString k).toList.isEmpty = false := by
    rw [List.isEmpty_eq_false_iff]
    exact Count.toList_toString_ne_nil k
  have hdigits : (toString k).toList.all Count.isDigit = true :=
    List.all_eq_true.2 fun _ => Count.isDigit_of_mem_toString
  have hspace : ∀ c ∈ (toString k).toList, (c != ' ') = true := by
    intro c hc
    rw [bne_iff_ne]
    rintro rfl
    cases Count.isDigit_of_mem_toString hc
  have htext : (" " ++ toString k ++ " " ++ name).toList =
      ' ' :: ((toString k).toList ++ ' ' :: name.toList) := by
    simp [String.toList_append]
  have htake : ((toString k).toList ++ ' ' :: name.toList).takeWhile (· != ' ') =
      (toString k).toList := by
    rw [List.takeWhile_append_of_pos hspace, List.takeWhile_cons_of_neg (by decide),
      List.append_nil]
  have hdrop : ((toString k).toList ++ ' ' :: name.toList).dropWhile (· != ' ') =
      ' ' :: name.toList := by
    rw [List.dropWhile_append_of_pos hspace, List.dropWhile_cons_of_neg (by decide)]
  rw [htext]
  simp only [naming?, htake, hdrop, List.drop_one, List.tail_cons,
    trimEnd_eq_self h.last_not_blank, hname, hnumber, hdigits]
  rfl

/-- The reader after the line of a naming comment. -/
def afterNaming (r : Reader) (entry : Nat × String) : Reader :=
  { r.onNextLine with names := r.names.insert entry.2 entry.1 }

/-- A naming comment pairs its number with its name after the stem. -/
theorem AtLine.read_namingLine (h : r.AtLine) (hopen : r.namesOpen = true) {name : String}
    (hname : IsPlainName name) {k : Nat} (hk : IsVariable k) :
    r.read ("c " ++ toString k ++ " " ++ name ++ "\n") = r.afterNaming (k, r.stem ++ name) := by
  have hline : IsOneLine (" " ++ toString k ++ " " ++ name) := by
    simp only [isOneLine_append]
    exact ⟨⟨⟨by decide, isOneLine_toString k⟩, by decide⟩, hname.isOneLine⟩
  have htext : "c " ++ toString k ++ " " ++ name ++ "\n" =
      "c" ++ (" " ++ toString k ++ " " ++ name ++ "\n") := by
    rw [show "c " = "c" ++ " " by decide]
    simp only [String.append_assoc]
  rw [htext, h.read_comment hopen hline, endNaming, List.reverse_reverse,
    Utf8.decodeReplacing_encode, naming?_render k hname]
  simp only [Count.ofDigits_toString, if_neg (Nat.not_lt.2 hk.2), if_neg (Nat.ne_of_gt hk.1),
    String.ofList_toList]
  rw [afterNaming, ← h.mode]
  rfl

/-! ## The problem line -/

/-- The text of a problem line gives its counts back. -/
theorem header?_render {h : Header} (hvariables : h.variableCount ≤ Count.largest)
    (hclauses : h.clauseCount ≤ Count.largest) :
    header? ("p" ++ (" cnf " ++ toString h.variableCount ++ " " ++
      toString h.clauseCount)).toList = some h := by
  have htext : ("p" ++ (" cnf " ++ toString h.variableCount ++ " " ++
      toString h.clauseCount)).toList =
      'p' :: ' ' :: ("cnf".toList ++ ' ' :: ((toString h.variableCount).toList ++
        ' ' :: (toString h.clauseCount).toList)) := by
    simp [String.toList_append]
  have hfields : fields ("cnf".toList ++ ' ' :: ((toString h.variableCount).toList ++
        ' ' :: (toString h.clauseCount).toList)) =
      ["cnf".toList, (toString h.variableCount).toList, (toString h.clauseCount).toList] := by
    rw [fields_append_blank (by decide) (by decide) (by decide),
      fields_append_blank (Count.toList_toString_ne_nil _) (Count.any_isBlankChar_toString _)
        (by decide),
      fields_word (Count.toList_toString_ne_nil _) (Count.any_isBlankChar_toString _)]
  rw [htext, header?, hfields]
  simp only [if_true, Count.read?_toString hvariables, Count.read?_toString hclauses]

/-- The reader after the problem line. -/
def afterHeader (r : Reader) (h : Header) : Reader :=
  { r.onNextLine.namesClosed with
    header := some h
    cnf := r.cnf.reserve h.variableCount }

/-- A problem line ends the naming of variables. -/
theorem step_problem (hfault : r.fault = none) (hmode : r.mode = .lineStart)
    (hnone : r.header = none) : r.step 112 = (r.inMode (.problem [112])).namesClosed := by
  rw [step_eq hfault, if_neg (by decide), modeByte, hmode]
  simp [clauseByte, digit?, isLineEnd, hnone, inMode, namesClosed]

/-- A problem line is read as its counts. -/
theorem AtLine.read_problem (hr : r.AtLine) (hnone : r.header = none) {text : String}
    (htext : IsOneLine text) {h : Header} (hheader : header? ("p" ++ text).toList = some h)
    (hle : h.variableCount ≤ largestVariable) :
    r.read ("p" ++ (text ++ "\n")) = r.afterHeader h := by
  have hbegin : r.read "p" = (r.inMode (.problem [112])).namesClosed := by
    have hstep : r.read "p" = r.step 112 := rfl
    rw [hstep, step_problem hr.fault hr.mode hnone]
  have hrest := collects_problem.read (r := (r.inMode (.problem [112])).namesClosed) htext
    hr.fault rfl
  have hbytes : ((Utf8.encode text).reverse ++ [112]).reverse = Utf8.encode ("p" ++ text) := by
    rw [List.reverse_append, List.reverse_reverse, Utf8.encode_append]
    rfl
  rw [read_append, hbegin, hrest, endProblem, hbytes, Utf8.decodeReplacing_encode, hheader]
  simp only [if_neg (Nat.not_lt.2 hle)]
  rw [afterHeader, namesClosed, onNextLine, ← hr.mode]
  rfl

/-- The problem line declares its counts. -/
theorem AtLine.read_header (hr : r.AtLine) (hnone : r.header = none) {h : Header}
    (hvariables : h.variableCount ≤ largestVariable) (hclauses : h.clauseCount ≤ Count.largest) :
    r.read h.render = r.afterHeader h := by
  have hlargest : largestVariable ≤ Count.largest := by decide
  have hline : IsOneLine (" cnf " ++ toString h.variableCount ++ " " ++ toString h.clauseCount) := by
    simp only [isOneLine_append]
    exact ⟨⟨⟨by decide, isOneLine_toString _⟩, by decide⟩, isOneLine_toString _⟩
  have hread := hr.read_problem hnone hline
    (header?_render (Nat.le_trans hvariables hlargest) hclauses) hvariables
  -- The writer has its first blank in the first word, the reader goes by the first letter.
  have hrender : h.render =
      "p" ++ (" cnf " ++ toString h.variableCount ++ " " ++ toString h.clauseCount ++ "\n") := by
    rw [Header.render, show "p cnf " = "p" ++ " cnf " by decide]
    simp only [String.append_assoc]
  rw [hrender, hread]

end Reader

end Presence
