import Presence.Proofs.Expression.CanonicalText
import Presence.Proofs.Text.Fields
import Presence.Proofs.Text.Utf8
import Presence.Listing

/-!
# Listings are read back

A listing has a line `file: condition` for each of its entries, with the canonical text of the
condition or the mark of an invalid one.  Between these lines others may stand that have no
colon, among them the blank ones.  All lines end with a line feed, before which a
carriage return may stand (`Lists`).  In every dialect such a text is read as its entries, in
their order and without any others (`read_of_lists`).

The reading goes line by line.  What precedes a line end comes out as the bytes of one text, which
may have lost a carriage return (`exists_linesFrom_eq`).  A line without a colon has no entry
(`result_entryOfLine_of_not_mem`), and a line of an entry has this one
(`IsListable.result_entryLine`): the first colon ends the file, trimming takes off the one blank
after it, and neither does a canonical text begin or end with a blank nor is the mark part of it
(`trim_render`, `contains_render`).
-/

namespace Presence

/-! ## Canonical texts as conditions -/

theorem isBlankChar_of_isSymbolChar {c : Char} (h : isSymbolChar c = true) :
    isBlankChar c = false := by
  rw [isSymbolChar, Bool.or_eq_true, beq_iff_eq] at h
  rcases h with h | rfl
  · -- The ranges of capital letters, small letters and digits among the code points.
    change ((decide (65 ≤ c.toNat ∧ c.toNat ≤ 90) ||
      (decide (97 ≤ c.toNat) && decide (c.toNat ≤ 122))) ||
      (decide (48 ≤ c.toNat) && decide (c.toNat ≤ 57))) = true at h
    simp only [Bool.or_eq_true, Bool.and_eq_true, decide_eq_true_eq] at h
    simp [isBlankChar, blankRanges]
    omega
  · decide

/-- The text does not begin or end with a blank. -/
structure HasFirmEnds (text : List Char) : Prop where
  /-- The first character, if there is one. -/
  head : text.head?.any isBlankChar = false
  /-- The last character, if there is one. -/
  last : text.getLast?.any isBlankChar = false

namespace HasFirmEnds

variable {text : List Char} {c d : Char}

theorem of_forall (h : ∀ c ∈ text, isBlankChar c = false) : HasFirmEnds text where
  head := by
    cases hc : text.head? with
    | none => rfl
    | some c => exact h c (List.mem_of_mem_head? hc)
  last := by
    cases hc : text.getLast? with
    | none => rfl
    | some c => exact h c (List.mem_of_mem_getLast? hc)

theorem between (hc : isBlankChar c = false) (hd : isBlankChar d = false) (text : List Char) :
    HasFirmEnds (c :: (text ++ [d])) where
  head := hc
  last := by
    rw [← List.cons_append, List.getLast?_append, List.getLast?_singleton]
    exact hd

theorem cons (hc : isBlankChar c = false) (h : HasFirmEnds text) : HasFirmEnds (c :: text) where
  head := hc
  last := by
    cases text with
    | nil => exact hc
    | cons d text => exact h.last

/-- Trimming takes off a blank before the text and nothing else. -/
theorem trim_blank (h : HasFirmEnds text) : trim (' ' :: text) = text := by
  have hdrop : (' ' :: text).dropWhile isBlankChar = text := by
    rw [List.dropWhile_cons_of_pos (by decide)]
    cases text with
    | nil => rfl
    | cons c text => exact List.dropWhile_cons_of_neg (by rw [Bool.not_eq_true]; exact h.head)
  rw [trim, hdrop, trimEnd_eq_self h.last]

end HasFirmEnds

theorem bracketedText_eq (op : Operator) (left right : List Char) :
    ∃ text, bracketedText op left right = '(' :: (text ++ [')']) :=
  ⟨left ++ ' ' :: (op.symbol.toList ++ ' ' :: right), by simp [bracketedText]⟩

namespace Formula

variable {f : Formula}

theorem hasFirmEnds_render (hf : f.HasSymbolNames) : HasFirmEnds f.render.toList := by
  induction f with
  | constant b => cases b <;> exact ⟨by decide, by decide⟩
  | atom name =>
      exact .of_forall fun c hc =>
        isBlankChar_of_isSymbolChar ((hasSymbolNames_atom.1 hf).isSymbolChar c hc)
  | negation f ih =>
      rw [toList_render_negation]
      exact (ih hf).cons (by decide)
  | conjunction l r _ _ =>
      obtain ⟨text, htext⟩ := bracketedText_eq .and l.render.toList r.render.toList
      rw [toList_render_conjunction, htext]
      exact .between (by decide) (by decide) text
  | disjunction l r _ _ =>
      obtain ⟨text, htext⟩ := bracketedText_eq .or l.render.toList r.render.toList
      rw [toList_render_disjunction, htext]
      exact .between (by decide) (by decide) text

end Formula

/-! ## Lines -/

namespace Utf8

/-- A text ends in a carriage return if its last byte is that of one. -/
theorem exists_of_encode_eq_append {line : String} {bytes : List UInt8}
    (h : encode line = bytes ++ [13]) : ∃ content, line = content ++ "\r" ∧ encode content = bytes := by
  rw [encode_eq_flatMap] at h
  rcases List.eq_nil_or_concat line.toList with hnil | ⟨cs, c, hline⟩
  · rw [hnil] at h
    simp at h
  · rw [hline, List.concat_eq_append, List.flatMap_append, List.flatMap_singleton] at h
    rcases Nat.lt_or_ge c.toNat 128 with hascii | hlarge
    · rw [utf8EncodeChar_of_lt hascii] at h
      obtain ⟨hbytes, hlast⟩ := List.append_inj' h rfl
      have hcode : c.toNat = 13 := by
        have hbyte := congrArg UInt8.toNat (List.singleton_inj.1 hlast)
        rw [UInt8.toNat_ofNat'] at hbyte
        have : (13 : UInt8).toNat = 13 := rfl
        omega
      have hreturn : c = '\r' := by
        rw [← Char.ofNat_toNat c, hcode]
      refine ⟨String.ofList cs, ?_, ?_⟩
      · rw [← String.toList_inj, hline, hreturn]
        simp
      · rw [encode_eq_flatMap, String.toList_ofList, hbytes]
    -- All bytes of any other character are above those of ASCII.
    · have hmem : (13 : UInt8) ∈ String.utf8EncodeChar c := by
        refine List.mem_of_mem_getLast? ?_
        have hlast := congrArg List.getLast? h
        rw [List.getLast?_append_of_ne_nil _ String.utf8EncodeChar_ne_nil,
          List.getLast?_append_of_ne_nil _ (List.cons_ne_nil _ _)] at hlast
        exact hlast
      exact absurd (le_of_mem_utf8EncodeChar hlarge hmem) (by decide)

end Utf8

namespace Listing

variable {p : Parser} {g : Grammar} {f : Formula} {e : Entry} {maxDepth number : Nat}
  {line ending text : String} {entries : List Entry}

/-- The text ends a line. -/
def EndsLine (ending : String) : Prop := ending = "\n" ∨ ending = "\r\n"

theorem linesFrom_cons {b : UInt8} (h : b ≠ 10) (run rest : List UInt8) :
    linesFrom run (b :: rest) = linesFrom (b :: run) rest :=
  if_neg h

theorem linesFrom_returnFeed (run rest : List UInt8) :
    linesFrom (13 :: run) (10 :: rest) = run.reverse :: linesFrom [] rest :=
  if_pos rfl

theorem linesFrom_feed {run : List UInt8} (h : run.head? ≠ some 13) (rest : List UInt8) :
    linesFrom run (10 :: rest) = run.reverse :: linesFrom [] rest := by
  refine (if_pos rfl).trans ?_
  split
  next => exact absurd rfl h
  next => rfl

theorem linesFrom_append {bytes : List UInt8} (h : 10 ∉ bytes) (run rest : List UInt8) :
    linesFrom run (bytes ++ rest) = linesFrom (bytes.reverse ++ run) rest := by
  induction bytes generalizing run with
  | nil => rfl
  | cons b bytes ih =>
      rw [List.mem_cons, not_or] at h
      rw [List.cons_append, linesFrom_cons (Ne.symm h.1), ih h.2, List.reverse_cons,
        List.append_assoc, List.singleton_append]

/-- The line before a line end is read as it is, or without a carriage return at its end. -/
theorem exists_linesFrom_eq (hline : '\n' ∉ line.toList) (hending : EndsLine ending)
    (text : String) :
    ∃ content, linesFrom [] (Utf8.encode (line ++ ending ++ text)) =
        Utf8.encode content :: linesFrom [] (Utf8.encode text) ∧
      (content = line ∨ line = content ++ "\r") := by
  have hfeed : (10 : UInt8) ∉ Utf8.encode line :=
    fun hmem => hline (Utf8.ofNat_toNat_mem_of_mem_encode hmem (by decide))
  rw [Utf8.encode_append, Utf8.encode_append, List.append_assoc, linesFrom_append hfeed,
    List.append_nil]
  rcases hending with rfl | rfl
  · have hbytes : Utf8.encode "\n" = [10] := by rfl
    rw [hbytes, List.singleton_append]
    by_cases hreturn : (Utf8.encode line).reverse.head? = some 13
    · obtain ⟨run, hrun⟩ := List.head?_eq_some_iff.1 hreturn
      have hencode : Utf8.encode line = run.reverse ++ [13] := by
        rw [← List.reverse_cons, ← hrun, List.reverse_reverse]
      obtain ⟨content, hcontent, hrest⟩ := Utf8.exists_of_encode_eq_append hencode
      rw [hrun, linesFrom_returnFeed, ← hrest]
      exact ⟨content, rfl, Or.inr hcontent⟩
    · rw [linesFrom_feed hreturn, List.reverse_reverse]
      exact ⟨line, rfl, Or.inl rfl⟩
  · have hbytes : Utf8.encode "\r\n" = [13, 10] := by rfl
    rw [hbytes, List.cons_append, List.singleton_append, linesFrom_cons (by decide),
      linesFrom_returnFeed, List.reverse_reverse]
    exact ⟨line, rfl, Or.inl rfl⟩

/-! ## Entries -/

/-- The text of a condition in a listing. -/
def conditionText : Option Formula → String
  | some f => f.render
  | none => invalidMark

/-- The line of an entry. -/
def entryLine (e : Entry) : String := e.file ++ ": " ++ conditionText e.condition

theorem toList_entryLine (e : Entry) :
    (entryLine e).toList = e.file.toList ++ ':' :: ' ' :: (conditionText e.condition).toList := by
  simp [entryLine]

/-- The entry can be written in one line, and its condition stays within the limit. -/
structure IsListable (maxDepth : Nat) (e : Entry) : Prop where
  /-- The first colon of the line ends the file. -/
  noColon : ':' ∉ e.file.toList
  /-- The file does not end the line. -/
  oneLine : '\n' ∉ e.file.toList
  /-- The names of the condition are symbols. -/
  symbols : ∀ f, e.condition = some f → f.HasSymbolNames
  /-- The canonical text of the condition is not nested too deep. -/
  nesting : ∀ f, e.condition = some f → f.nesting ≤ maxDepth

/-- The text is a listing of the entries, with further lines without colons between theirs. -/
inductive Lists (maxDepth : Nat) : String → List Entry → Prop where
  /-- No lines. -/
  | nil : Lists maxDepth "" []
  /-- A blank line, or any other without a colon. -/
  | skip {line ending text : String} {entries : List Entry} (noColon : ':' ∉ line.toList)
      (oneLine : '\n' ∉ line.toList) (ended : EndsLine ending) (rest : Lists maxDepth text entries) :
      Lists maxDepth (line ++ ending ++ text) entries
  /-- The line of an entry. -/
  | entry {e : Entry} {ending text : String} {entries : List Entry} (isListable : IsListable maxDepth e)
      (ended : EndsLine ending) (rest : Lists maxDepth text entries) :
      Lists maxDepth (entryLine e ++ ending ++ text) (e :: entries)

theorem isInfix_of_contains {mark : List Char} {text : List Char} (h : contains mark text = true) :
    mark <:+: text := by
  induction text with
  | nil =>
      rw [contains, List.isEmpty_iff] at h
      exact h ▸ List.nil_infix
  | cons c text ih =>
      rw [contains, Bool.or_eq_true] at h
      rcases h with h | h
      · exact (List.isPrefixOf_iff_prefix.1 h).isInfix
      · exact List.infix_cons (ih h)

/-- The mark is a call, and a canonical text holds none. -/
theorem contains_render (hf : f.HasSymbolNames) :
    contains invalidMark.toList f.render.toList = false := by
  rw [Bool.eq_false_iff]
  intro h
  have hcall : Definedness.NoCall invalidMark.toList :=
    List.IsChain.infix (Definedness.noCall_render hf) (isInfix_of_contains h)
  unfold Definedness.NoCall at hcall
  exact absurd hcall (by decide)

namespace IsListable

theorem trim_conditionText (h : IsListable maxDepth e) :
    trim (' ' :: (conditionText e.condition).toList) = (conditionText e.condition).toList := by
  refine HasFirmEnds.trim_blank ?_
  cases hcondition : e.condition with
  | none => exact ⟨by decide, by decide⟩
  | some f => exact Formula.hasFirmEnds_render (h.symbols f hcondition)

/-- The text of a condition does not end its line. -/
theorem not_mem_conditionText (h : IsListable maxDepth e) :
    '\n' ∉ (conditionText e.condition).toList ∧ '\r' ∉ (conditionText e.condition).toList := by
  cases hcondition : e.condition with
  | none => exact ⟨by decide, by decide⟩
  | some f =>
      have hown := Tristate.forall_mem_render (h.symbols f hcondition)
      exact ⟨fun hfeed => hown _ hfeed (by decide), fun hreturn => hown _ hreturn (by decide)⟩

theorem oneLine_entryLine (h : IsListable maxDepth e) : '\n' ∉ (entryLine e).toList := by
  rw [toList_entryLine, List.mem_append, List.mem_cons, List.mem_cons]
  rintro (hfile | hcolon | hblank | hcondition)
  · exact h.oneLine hfile
  · exact absurd hcolon (by decide)
  · exact absurd hblank (by decide)
  · exact h.not_mem_conditionText.1 hcondition

/-- The line of an entry has no carriage return to lose. -/
theorem entryLine_ne (h : IsListable maxDepth e) (content : String) :
    entryLine e ≠ content ++ "\r" := by
  intro heq
  have hlast : ((entryLine e).toList).getLast? = some '\r' := by
    rw [heq, String.toList_append, List.getLast?_append_of_ne_nil _ (by decide)]
    rfl
  rw [toList_entryLine, List.getLast?_append_of_ne_nil _ (List.cons_ne_nil _ _)] at hlast
  rcases List.mem_cons.1 (List.mem_of_mem_getLast? hlast) with hcolon | htext
  · exact absurd hcolon (by decide)
  · rcases List.mem_cons.1 htext with hblank | hcondition
    · exact absurd hblank (by decide)
    · exact h.not_mem_conditionText.2 hcondition

/-- The condition is found again in its text. -/
theorem result_condition (hg : g.OfDialect) (h : IsListable maxDepth e) (file : String) :
    (condition ⟨g, maxDepth⟩ file (conditionText e.condition)).result = e.condition := by
  cases hcondition : e.condition with
  | none => exact congrArg Noted.result (if_pos (by decide))
  | some f =>
      have hf := h.symbols f hcondition
      rw [conditionText, condition, contains_render hf, if_neg Bool.false_ne_true,
        hg.parse_render hf (h.nesting f hcondition)]

/-- The line of an entry has that entry. -/
theorem result_entryLine (hg : g.OfDialect) (h : IsListable maxDepth e) (number : Nat) :
    (entryOfLine ⟨g, maxDepth⟩ number (entryLine e)).result = some e := by
  have hcolon : ∀ c ∈ e.file.toList, (c != ':') = true := by
    intro c hc
    rw [bne_iff_ne]
    rintro rfl
    exact h.noColon hc
  have hblank : (entryLine e).toList.all isBlankChar = false := by
    rw [toList_entryLine, List.all_append, List.all_cons]
    simp [isBlankChar, blankRanges]
  have hfile : (entryLine e).toList.takeWhile (· != ':') = e.file.toList := by
    rw [toList_entryLine, List.takeWhile_append_of_pos hcolon, List.takeWhile_cons_of_neg (by decide),
      List.append_nil]
  have hrest : (entryLine e).toList.dropWhile (· != ':') =
      ':' :: ' ' :: (conditionText e.condition).toList := by
    rw [toList_entryLine, List.dropWhile_append_of_pos hcolon, List.dropWhile_cons_of_neg (by decide)]
  simp only [entryOfLine, hblank, hfile, hrest, h.trim_conditionText, String.ofList_toList,
    h.result_condition hg]
  rfl

end IsListable

/-- A line without a colon has no entry. -/
theorem result_entryOfLine_of_not_mem (h : ':' ∉ line.toList) (p : Parser) (number : Nat) :
    (entryOfLine p number line).result = none := by
  have hrest : line.toList.dropWhile (· != ':') = [] := by
    rw [List.dropWhile_eq_nil_iff]
    intro c hc
    rw [bne_iff_ne]
    rintro rfl
    exact h hc
  simp only [entryOfLine, hrest]
  split <;> rfl

/-! ## Reading -/

theorem result_entriesFrom_cons (p : Parser) (number : Nat) (line : String)
    (lines : List (List UInt8)) :
    (entriesFrom p number (Utf8.encode line :: lines)).result =
      (entriesFrom p (number + 1) lines).result.map
        ((entryOfLine p number line).result.toList ++ ·) := by
  simp only [entriesFrom, Utf8.decode?_encode]

/-- The lines of a listing have its entries, whatever number the first line has. -/
theorem result_entriesFrom_of_lists (hg : g.OfDialect) (h : Lists maxDepth text entries)
    (number : Nat) :
    (entriesFrom ⟨g, maxDepth⟩ number (linesFrom [] (Utf8.encode text))).result = .ok entries := by
  induction h generalizing number with
  | nil => rfl
  | @skip line ending text entries noColon oneLine ended rest ih =>
      obtain ⟨content, hlines, hcontent⟩ := exists_linesFrom_eq oneLine ended text
      have hcolon : ':' ∉ content.toList := by
        rcases hcontent with rfl | rfl
        · exact noColon
        · rw [String.toList_append, List.mem_append, not_or] at noColon
          exact noColon.1
      rw [hlines, result_entriesFrom_cons, ih, result_entryOfLine_of_not_mem hcolon]
      rfl
  | @entry e ending text entries isListable ended rest ih =>
      obtain ⟨content, hlines, hcontent⟩ :=
        exists_linesFrom_eq isListable.oneLine_entryLine ended text
      obtain rfl := hcontent.resolve_right (isListable.entryLine_ne content)
      rw [hlines, result_entriesFrom_cons, ih, isListable.result_entryLine hg]
      rfl

/-- A listing is read as its entries. -/
theorem read_of_lists (hg : g.OfDialect) (h : Lists maxDepth text entries) :
    (read ⟨g, maxDepth⟩ (Utf8.encode text)).result = .ok entries := by
  simp only [read, result_entriesFrom_of_lists hg h]

/-- The entry of `a b.c: (A && !B)`. -/
def conditionExample : Entry := ⟨"a b.c", some (.conjunction (.atom "A") (.negation (.atom "B")))⟩

/-- The entry of `c.h: InvalidExpression()`. -/
def invalidExample : Entry := ⟨"c.h", none⟩

theorem read_of_lists_example :
    Definedness.grammar.OfDialect ∧
      Lists 3 " \r\na b.c: (A && !B)\r\nno entry\nc.h: InvalidExpression()\n"
        [conditionExample, invalidExample] ∧
      (read ⟨Definedness.grammar, 3⟩ (Utf8.encode
        " \r\na b.c: (A && !B)\r\nno entry\nc.h: InvalidExpression()\n")).result =
          .ok [conditionExample, invalidExample] := by
  have hg : Definedness.grammar.OfDialect := .definedness
  have hcondition : IsListable 3 conditionExample := by
    refine ⟨by decide, by decide, ?_, ?_⟩
    · rintro f ⟨⟩
      decide
    · rintro f ⟨⟩
      decide
  have hinvalid : IsListable 3 invalidExample := ⟨by decide, by decide, nofun, nofun⟩
  have hlists : Lists 3 (" " ++ "\r\n" ++ (entryLine conditionExample ++ "\r\n" ++
      ("no entry" ++ "\n" ++ (entryLine invalidExample ++ "\n" ++ ""))))
        [conditionExample, invalidExample] :=
    .skip (by decide) (by decide) (Or.inr rfl) <| .entry hcondition (Or.inr rfl) <|
      .skip (by decide) (by decide) (Or.inl rfl) <| .entry hinvalid (Or.inl rfl) .nil
  have htext : " " ++ "\r\n" ++ (entryLine conditionExample ++ "\r\n" ++
      ("no entry" ++ "\n" ++ (entryLine invalidExample ++ "\n" ++ ""))) =
        " \r\na b.c: (A && !B)\r\nno entry\nc.h: InvalidExpression()\n" := by rfl
  rw [htext] at hlists
  exact ⟨hg, hlists, read_of_lists hg hlists⟩

end Listing

end Presence
