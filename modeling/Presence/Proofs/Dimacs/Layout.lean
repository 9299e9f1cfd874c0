import Presence.Proofs.Dimacs.Contents
import Presence.Proofs.Dimacs.Fitting
import Presence.Proofs.Dimacs.RoundTrip

/-!
# Layouts

The same names, counts and clauses can be written in many ways.  Lines end with line feeds or
carriage returns, blank lines stand anywhere, clauses go over several lines, and comments stand
between these lines.  A number may have zeros in front.  `Dimacs.IsLayout` is the grammar of all
these texts.  It says which lines there are, and it does not mention the reader.

Every such text is read as what it spells, whatever its layout is (`FeatureModel.parse_layout`).
A line is read without a fault if it fits the reader (`Reader.Fits`).  So it is enough that each
line fits what the lines before it leave, and what is read then follows from `Reader.Reads`.
-/

namespace Presence

open Dimacs

namespace Dimacs

open Reader (digit?)

/-! ## The grammar -/

/-- The word is a number, perhaps with zeros in front. -/
def SpellsNumber (w : List UInt8) (k : Nat) : Prop :=
  ∃ zeros, w = List.replicate zeros 48 ++ Utf8.encode (toString k)

/-- The word is the number of a literal, after a minus sign if the variable must be false. -/
def SpellsLiteral (w : List UInt8) (l : Literal) : Prop :=
  ∃ digits, SpellsNumber digits l.number ∧ w = if l.positive then digits else 45 :: digits

/-- The words are the literals of the clauses, with a 0 after those of each clause. -/
inductive SpellsClauses : List (List UInt8) → List Clause → Prop where
  | nil : SpellsClauses [] []
  | cons {c : Clause} {cs : List Clause} {ws ws' : List (List UInt8)} {zero : List UInt8}
      (hliterals : List.Forall₂ SpellsLiteral ws c) (hzero : SpellsNumber zero 0)
      (hrest : SpellsClauses ws' cs) : SpellsClauses (ws ++ zero :: ws') (c :: cs)

/-- A text of blanks. -/
def IsPadding (pad : String) : Prop := pad.toList.all isBlankChar = true

instance : DecidablePred IsPadding := fun pad =>
  inferInstanceAs (Decidable (pad.toList.all isBlankChar = true))

/-- The line of a naming comment. -/
def namingText (e : Nat × String) : String := "c " ++ toString e.1 ++ " " ++ e.2

/-- The line is a problem line with the counts, and its fields may be any number of blanks
apart. -/
def SpellsHeader (line : List UInt8) (h : Header) : Prop :=
  ∃ pad pad₁ pad₂ pad₃ : String, IsPadding pad ∧ IsPadding pad₁ ∧ IsPadding pad₂ ∧
    IsPadding pad₃ ∧ pad₁ ≠ "" ∧ pad₂ ≠ "" ∧
    line = Utf8.encode ("p " ++ (pad ++ ("cnf" ++ (pad₁ ++ (toString h.variableCount ++
      (pad₂ ++ (toString h.clauseCount ++ pad₃)))))))

/-- The lines are comments and rows of numerals, and the numerals spell the clauses. -/
structure IsBody (clauses : List Clause) (lines : List (List UInt8)) : Prop where
  not_problem : ∀ line ∈ lines, line.head? ≠ some 112
  spells : SpellsClauses (textWords lines) clauses

/-- The lines are a naming comment for each entry, then a problem line with the counts, if there
are any, and then comments and rows with the clauses.  Blank lines may stand between them. -/
inductive IsLayout :
    List (Nat × String) → Option Header → List Clause → List (List UInt8) → Prop where
  | blank {entries : List (Nat × String)} {declared : Option Header} {clauses : List Clause}
      {line : List UInt8} {lines : List (List UInt8)} (hline : ∀ b ∈ line, b = 32)
      (h : IsLayout entries declared clauses lines) :
      IsLayout entries declared clauses (line :: lines)
  | naming {e : Nat × String} {entries : List (Nat × String)} {declared : Option Header}
      {clauses : List Clause} {lines : List (List UInt8)}
      (h : IsLayout entries declared clauses lines) :
      IsLayout (e :: entries) declared clauses (Utf8.encode (namingText e) :: lines)
  | problem {h : Header} {clauses : List Clause} {line : List UInt8} {lines : List (List UInt8)}
      (hline : SpellsHeader line h) (hbody : IsBody clauses lines) :
      IsLayout [] (some h) clauses (line :: lines)
  /-- Without a problem line it is the first numeral that ends the naming of variables. -/
  | rows {clauses : List Clause} {lines : List (List UInt8)}
      (hfirst : ∀ line ∈ lines.head?, rowWords line ≠ []) (hbody : IsBody clauses lines) :
      IsLayout [] none clauses lines

/-- The counts agree with the clauses and are supported. -/
structure Declares (h : Header) (clauses : List Clause) : Prop where
  clauseCount_eq : h.clauseCount = clauses.length
  clauseCount_le : h.clauseCount ≤ Count.largest
  variableCount_le : h.variableCount ≤ largestVariable
  number_le : ∀ c ∈ clauses, ∀ l ∈ c, l.number ≤ h.variableCount

variable {w line : List UInt8} {k : Nat} {l : Literal} {c : Clause} {h : Header} {e : Nat × String}
  {ws lines : List (List UInt8)} {clauses : List Clause} {entries : List (Nat × String)}
  {declared : Option Header}

/-! ## Numerals -/

/-- The byte of a digit has its value. -/
theorem digit?_ofNat {c : Char} (hc : Count.isDigit c = true) :
    digit? (UInt8.ofNat c.toNat) = some (Count.digitValue c) := by
  have hle := Count.isDigit_iff.1 hc
  have hbyte : (UInt8.ofNat c.toNat).toNat = c.toNat := by
    rw [UInt8.toNat_ofNat']
    omega
  have hdigit : 48 ≤ UInt8.ofNat c.toNat ∧ UInt8.ofNat c.toNat ≤ 57 := by
    rw [UInt8.le_iff_toNat_le, UInt8.le_iff_toNat_le, hbyte]
    exact hle
  rw [digit?, if_pos hdigit, hbyte]
  rfl

/-- A number is written with the bytes of its digits. -/
theorem encode_toString (k : Nat) :
    Utf8.encode (toString k) = (toString k).toList.map fun c => UInt8.ofNat c.toNat := by
  rw [Utf8.encode_eq_flatMap, List.map_eq_flatMap]
  refine List.flatMap_congr fun c hc => Utf8.utf8EncodeChar_of_lt ?_
  have hle := Count.isDigit_iff.1 (Count.isDigit_of_mem_toString hc)
  omega

theorem SpellsNumber.digits (h : SpellsNumber w k) :
    w ≠ [] ∧ ∀ b ∈ w, (digit? b).isSome = true := by
  obtain ⟨zeros, rfl⟩ := h
  rw [encode_toString, List.forall_mem_append]
  refine ⟨?_, fun b hb => ?_, fun b hb => ?_⟩
  · rw [ne_eq, List.append_eq_nil_iff, List.map_eq_nil_iff, not_and_or]
    exact Or.inr (Count.toList_toString_ne_nil k)
  · rw [List.eq_of_mem_replicate hb]
    rfl
  · obtain ⟨c, hc, rfl⟩ := List.mem_map.1 hb
    rw [digit?_ofNat (Count.isDigit_of_mem_toString hc)]
    rfl

/-- Zeros in front do not change the value. -/
theorem SpellsNumber.value (h : SpellsNumber w k) :
    w.foldl (fun v b => v * 10 + (digit? b).getD 0) 0 = k := by
  obtain ⟨zeros, rfl⟩ := h
  have hzeros : (List.replicate zeros 48).foldl (fun v b => v * 10 + (digit? b).getD 0) 0 = 0 := by
    induction zeros with
    | zero => rfl
    | succ zeros ih =>
        rw [List.replicate_succ, List.foldl_cons]
        exact ih
  have hdigits : ∀ v, ∀ c ∈ (toString k).toList,
      v * 10 + (digit? (UInt8.ofNat c.toNat)).getD 0 = v * 10 + Count.digitValue c := by
    intro v c hc
    rw [digit?_ofNat (Count.isDigit_of_mem_toString hc)]
    rfl
  rw [List.foldl_append, hzeros, encode_toString, List.foldl_map, List.foldl_ext _ _ _ hdigits]
  exact Count.ofDigits_toString k

/-- A row of digits has no minus sign. -/
theorem head?_ne_minus (h : ∀ b ∈ w, (digit? b).isSome = true) : w.head? ≠ some 45 := by
  intro hhead
  have hminus := h 45 (List.mem_of_head? hhead)
  cases hminus

/-- The numeral of a literal has its number and its sign. -/
theorem SpellsLiteral.numeral (h : SpellsLiteral w l) :
    IsNumeral w ∧ wordValue w = l.number ∧ (w.head? == some 45) = !l.positive := by
  obtain ⟨digits, hnumber, rfl⟩ := h
  obtain ⟨hne, hdigits⟩ := hnumber.digits
  have hhead := head?_ne_minus hdigits
  have hword : wordDigits (if l.positive then digits else 45 :: digits) = digits := by
    split
    · exact if_neg hhead
    · rfl
  refine ⟨?_, ?_, ?_⟩
  · rw [IsNumeral, hword]
    exact ⟨hne, hdigits⟩
  · rw [wordValue, hword]
    exact hnumber.value
  · cases l.positive with
    | false => rfl
    | true => exact beq_eq_false_iff_ne.2 hhead

/-- The 0 at the end of a clause is written like a literal. -/
theorem SpellsNumber.spellsLiteral (h : SpellsNumber w k) : SpellsLiteral w ⟨k, true⟩ := ⟨w, h, rfl⟩

theorem SpellsLiteral.wordNumeral_eq (h : SpellsLiteral w l) :
    wordNumeral w = .digits (!l.positive) l.number := by
  obtain ⟨hnumeral, hvalue, hsign⟩ := h.numeral
  rw [hnumeral.wordNumeral_eq, hvalue, hsign]

theorem SpellsLiteral.isReadable (h : SpellsLiteral w l) (hl : l.number ≤ largestVariable) :
    IsReadable w := by
  obtain ⟨hnumeral, hvalue, -⟩ := h.numeral
  rw [IsReadable, hvalue]
  exact ⟨hnumeral, hl⟩

/-- The words of literals of supported variables are supported numerals. -/
theorem isReadable_of_forall₂ (h : List.Forall₂ SpellsLiteral ws c)
    (hc : ∀ l ∈ c, IsVariable l.number) : ∀ w ∈ ws, IsReadable w := by
  induction h with
  | nil => simp
  | cons hword _ ih =>
      obtain ⟨hl, hc⟩ := List.forall_mem_cons.1 hc
      exact List.forall_mem_cons.2 ⟨hword.isReadable hl.2, ih hc⟩

theorem SpellsClauses.isReadable (h : SpellsClauses ws clauses)
    (hclauses : ∀ c ∈ clauses, ∀ l ∈ c, IsVariable l.number) : ∀ w ∈ ws, IsReadable w := by
  induction h with
  | nil => simp
  | cons hliterals hzero _ ih =>
      obtain ⟨hc, hcs⟩ := List.forall_mem_cons.1 hclauses
      rw [List.forall_mem_append, List.forall_mem_cons]
      exact ⟨isReadable_of_forall₂ hliterals hc,
        hzero.spellsLiteral.isReadable (Nat.zero_le _), ih hcs⟩

/-! ## Lines of text -/

/-- A naming comment gives its entry back. -/
theorem lineNaming?_namingText (hname : IsPlainName e.2) :
    lineNaming? (Utf8.encode (namingText e)) = some e := by
  have hbytes : Utf8.encode (namingText e) =
      99 :: Utf8.encode (" " ++ toString e.1 ++ " " ++ e.2) := by
    have htext : namingText e = "c" ++ (" " ++ toString e.1 ++ " " ++ e.2) := by
      rw [namingText, show "c " = "c" ++ " " by decide]
      simp only [String.append_assoc]
    rw [htext, Utf8.encode_append]
    rfl
  rw [hbytes, lineNaming?, Utf8.decodeReplacing_encode, Reader.naming?_render e.1 hname]
  simp only [Option.map_some, Count.ofDigits_toString, String.ofList_toList]

theorem head?_namingText (e : Nat × String) : (Utf8.encode (namingText e)).head? = some 99 := by
  rw [namingText, String.append_assoc, String.append_assoc, Utf8.encode_append]
  rfl

theorem SpellsHeader.head? (hline : SpellsHeader line h) : line.head? = some 112 := by
  obtain ⟨pad, pad₁, pad₂, pad₃, -, -, -, -, -, -, rfl⟩ := hline
  rw [Utf8.encode_append]
  rfl

/-- A problem line gives its counts back. -/
theorem SpellsHeader.lineHeader? (hline : SpellsHeader line h)
    (hvariables : h.variableCount ≤ Count.largest) (hclauses : h.clauseCount ≤ Count.largest) :
    lineHeader? line = some h := by
  obtain ⟨pad, pad₁, pad₂, pad₃, hpad, hpad₁, hpad₂, hpad₃, hne₁, hne₂, rfl⟩ := hline
  rw [IsPadding, List.all_eq_true] at hpad hpad₁ hpad₂ hpad₃
  have hne₁ : pad₁.toList ≠ [] := mt String.toList_eq_nil_iff.1 hne₁
  have hne₂ : pad₂.toList ≠ [] := mt String.toList_eq_nil_iff.1 hne₂
  have hfields : fields (pad.toList ++ ("cnf".toList ++ (pad₁.toList ++
      ((toString h.variableCount).toList ++ (pad₂.toList ++
        ((toString h.clauseCount).toList ++ pad₃.toList)))))) =
      ["cnf".toList, (toString h.variableCount).toList, (toString h.clauseCount).toList] := by
    rw [fields_padding hpad, fields_append_padding (by decide) (by decide) hpad₁ hne₁,
      fields_append_padding (Count.toList_toString_ne_nil _) (Count.any_isBlankChar_toString _)
        hpad₂ hne₂,
      fields_word_padding (Count.toList_toString_ne_nil _) (Count.any_isBlankChar_toString _) hpad₃]
  have htext : "p ".toList = ['p', ' '] := rfl
  rw [Dimacs.lineHeader?, Utf8.decodeReplacing_encode]
  simp only [String.toList_append, htext, List.cons_append, List.nil_append, Reader.header?,
    hfields, if_true, Count.read?_toString hvariables, Count.read?_toString hclauses]

theorem lineWords_of_blank (h : ∀ b ∈ line, b = 32) : lineWords line = [] := by
  induction line with
  | nil => rfl
  | cons b line ih =>
      obtain ⟨rfl, hline⟩ := List.forall_mem_cons.1 h
      have hsplit := lineWords_append_blank [] line
      rw [ih hline] at hsplit
      exact hsplit

theorem head?_of_blank (h : ∀ b ∈ line, b = 32) (b : UInt8) (hb : b ≠ 32) : line.head? ≠ some b :=
  fun hhead => hb (h b (List.mem_of_head? hhead))

/-! ## What a layout says -/

theorem isLeading_of_blank (h : ∀ b ∈ line, b = 32) : isLeading line = true := by
  rw [isLeading, Bool.or_eq_true]
  exact Or.inr (List.all_eq_true.2 fun b hb => beq_iff_eq.2 (h b hb))

/-- The first numeral ends the naming of variables. -/
theorem not_isLeading_of_rowWords (h : rowWords line ≠ []) : isLeading line = false := by
  rw [isLeading, Bool.or_eq_false_iff]
  constructor
  · refine beq_eq_false_iff_ne.2 fun hcomment => h ?_
    exact if_pos (Or.inl hcomment)
  · refine Bool.eq_false_iff.2 fun hall => h ?_
    have hblank : lineWords line = [] :=
      lineWords_of_blank fun b hb => eq_of_beq (List.all_eq_true.1 hall b hb)
    rw [rowWords, hblank, ite_self]

/-- The problem line ends it as well. -/
theorem not_isLeading_of_problem (h : line.head? = some 112) : isLeading line = false := by
  rw [isLeading, h, Bool.or_eq_false_iff]
  refine ⟨rfl, Bool.eq_false_iff.2 fun hall => ?_⟩
  have hblank := List.all_eq_true.1 hall 112 (List.mem_of_head? h)
  cases hblank

theorem namings_cons_of_leading (h : isLeading line = true) (lines : List (List UInt8)) :
    namings (line :: lines) = (lineNaming? line).toList ++ namings lines := by
  have hsplit := namings_cons true line lines
  rwa [h] at hsplit

theorem namings_cons_of_not_leading (h : isLeading line = false) (lines : List (List UInt8)) :
    namings (line :: lines) = [] := by
  rw [namings, List.takeWhile_cons_of_neg (by rw [h]; exact Bool.false_ne_true)]
  rfl

/-- The naming comments are those of the entries, and no later comment names anything. -/
theorem IsLayout.namings_eq (hlayout : IsLayout entries declared clauses lines)
    (hentries : ∀ e ∈ entries, IsPlainName e.2) : namings lines = entries := by
  induction hlayout with
  | blank hline _ ih =>
      have hnaming := lineNaming?_eq_none (head?_of_blank hline 99 (by decide))
      rw [namings_cons_of_leading (isLeading_of_blank hline), hnaming, ih hentries]
      rfl
  | @naming e _ _ _ _ _ ih =>
      obtain ⟨hname, hentries⟩ := List.forall_mem_cons.1 hentries
      have hlead : isLeading (Utf8.encode (namingText e)) = true := by
        rw [isLeading, head?_namingText]
        rfl
      rw [namings_cons_of_leading hlead, lineNaming?_namingText hname, ih hentries]
      rfl
  | problem hline _ => exact namings_cons_of_not_leading (not_isLeading_of_problem hline.head?) _
  | @rows _ lines hfirst _ =>
      cases lines with
      | nil => rfl
      | cons line lines =>
          exact namings_cons_of_not_leading (not_isLeading_of_rowWords (hfirst line rfl)) _

theorem IsBody.declared?_eq (h : IsBody clauses lines) : declared? lines = none := by
  have hnone : lines.find? (·.head? == some 112) = none :=
    List.find?_eq_none.2 fun line hline hproblem => h.not_problem line hline (eq_of_beq hproblem)
  rw [declared?, hnone]
  rfl

theorem declared?_cons (h : line.head? ≠ some 112) (lines : List (List UInt8)) :
    declared? (line :: lines) = declared? lines := by
  rw [declared?, List.find?_cons_of_neg (by simpa using h)]
  rfl

/-- The counts are those of the problem line. -/
theorem IsLayout.declared?_eq (hlayout : IsLayout entries declared clauses lines)
    (hdeclared : ∀ h ∈ declared, Declares h clauses) : declared? lines = declared := by
  induction hlayout with
  | blank hline _ ih =>
      rw [declared?_cons (head?_of_blank hline 112 (by decide)), ih hdeclared]
  | @naming e _ _ _ _ _ ih =>
      rw [declared?_cons (by rw [head?_namingText]; decide), ih hdeclared]
  | @problem h _ _ _ hline _ =>
      have hcounts := hdeclared h rfl
      have hle : largestVariable ≤ Count.largest := by decide
      rw [declared?, List.find?_cons_of_pos (by rw [hline.head?]; rfl)]
      exact hline.lineHeader? (Nat.le_trans hcounts.variableCount_le hle) hcounts.clauseCount_le
  | rows _ hbody => exact hbody.declared?_eq

theorem textWords_cons (line : List UInt8) (lines : List (List UInt8)) :
    textWords (line :: lines) = rowWords line ++ textWords lines := List.flatMap_cons

/-- The words outside of comments and the problem line spell the clauses. -/
theorem IsLayout.spells (hlayout : IsLayout entries declared clauses lines) :
    SpellsClauses (textWords lines) clauses := by
  induction hlayout with
  | blank hline _ ih =>
      rwa [textWords_cons, rowWords, lineWords_of_blank hline, ite_self]
  | naming _ ih => rwa [textWords_cons, rowWords, if_pos (Or.inl (head?_namingText _))]
  | problem hline hbody =>
      rw [textWords_cons, rowWords, if_pos (Or.inr hline.head?)]
      exact hbody.spells
  | rows _ hbody => exact hbody.spells

end Dimacs

namespace Reader

variable {r r' : Reader} {line bytes : List UInt8} {lines ws : List (List UInt8)} {w : List UInt8}
  {c : Clause} {clauses : List Clause} {entries : List (Nat × String)} {declared : Option Header}
  {l : Literal} {k n : Nat}

/-! ## Layouts are read -/

/-- A line with numerals ends the naming of variables, and so does the problem line. -/
theorem ReadsLine.namesOpen (h : ReadsLine r n line [] r') :
    r'.namesOpen = (r.namesOpen && isLeading line) := h.names.2.1

theorem ReadsLine.header_of_ne (h : ReadsLine r n line [] r') (hproblem : line.head? ≠ some 112)
    (hnone : r.header = none) : r'.header = none := by
  rcases h.header with ⟨hhead, -⟩ | ⟨-, heq⟩
  · exact absurd hhead hproblem
  · exact heq.trans hnone

/-- Comments and rows are read without a fault once names are no longer taken. -/
theorem fault_endMode_of_rows (hproblem : ∀ line ∈ lines, line.head? ≠ some 112)
    (hwords : ∀ w ∈ textWords lines, IsReadable w) (hfault : r.fault = none)
    (hmode : r.mode = .lineStart)
    (hopen : r.namesOpen = true → ∀ line ∈ lines.head?, rowWords line ≠ [])
    (htext : textLines bytes = lines) : (bytes.foldl step r).endMode.fault = none := by
  induction lines generalizing r bytes with
  | nil => exact absurd htext (List.splitOnP_ne_nil _ _)
  | cons line lines ih =>
      obtain ⟨hline, hproblem⟩ := List.forall_mem_cons.1 hproblem
      rw [textWords_cons, List.forall_mem_append] at hwords
      obtain ⟨hrow, hwords⟩ := hwords
      have hfits : r.Fits line := by
        by_cases hcomment : line.head? = some 99
        · obtain ⟨text, rfl⟩ := List.head?_eq_some_iff.1 hcomment
          exact .comment fun h => absurd (if_pos (Or.inl hcomment)) (hopen h _ rfl)
        · rw [rowWords, if_neg (not_or.2 ⟨hcomment, hline⟩)] at hrow
          exact .row hcomment hline hrow
      refine fault_endMode_of_fits hfault hmode htext hfits
        fun r' n bytes' hread hfault' hmode' => ?_
      refine ih hproblem hwords hfault' hmode' fun hopen' => ?_
      rw [hread.namesOpen, Bool.and_eq_true] at hopen'
      have hlead := not_isLeading_of_rowWords (hopen hopen'.1 line rfl)
      rw [hlead] at hopen'
      cases hopen'.2

/-- A layout is read without a fault. -/
theorem fault_endMode_of_layout (hlayout : IsLayout entries declared clauses lines)
    (hentries : ∀ e ∈ entries, IsVariable e.1 ∧ IsPlainName e.2)
    (hdeclared : ∀ h ∈ declared, Declares h clauses)
    (hclauses : ∀ c ∈ clauses, ∀ l ∈ c, IsVariable l.number) (hfault : r.fault = none)
    (hmode : r.mode = .lineStart) (hheader : r.header = none) (htext : textLines bytes = lines) :
    (bytes.foldl step r).endMode.fault = none := by
  -- The reader is general, since each line leaves another one.
  induction hlayout generalizing r bytes with
  | blank hline _ ih =>
      have hcomment := head?_of_blank hline 99 (by decide)
      have hproblem := head?_of_blank hline 112 (by decide)
      have hfits : r.Fits _ := .row hcomment hproblem (by simp [lineWords_of_blank hline])
      refine fault_endMode_of_fits hfault hmode htext hfits
        fun r' n bytes' hread hfault' hmode' => ?_
      exact ih hentries hdeclared hclauses hfault' hmode' (hread.header_of_ne hproblem hheader)
  | @naming e _ _ _ _ _ ih =>
      obtain ⟨he, hentries⟩ := List.forall_mem_cons.1 hentries
      obtain ⟨text, hline⟩ := List.head?_eq_some_iff.1 (head?_namingText e)
      have hnaming := lineNaming?_namingText he.2
      have hproblem : (Utf8.encode (namingText e)).head? ≠ some 112 := by
        rw [head?_namingText]
        decide
      have hfits : r.Fits (Utf8.encode (namingText e)) := by
        rw [hline] at hnaming ⊢
        refine .comment fun _ e' he' => ?_
        rw [hnaming] at he'
        cases he'
        exact he.1
      refine fault_endMode_of_fits hfault hmode htext hfits
        fun r' n bytes' hread hfault' hmode' => ?_
      exact ih hentries hdeclared hclauses hfault' hmode' (hread.header_of_ne hproblem hheader)
  | @problem h _ _ _ hline hbody =>
      have hcounts := hdeclared h rfl
      have hle : largestVariable ≤ Count.largest := by decide
      have hlineHeader := hline.lineHeader? (Nat.le_trans hcounts.variableCount_le hle)
        hcounts.clauseCount_le
      have hlead := not_isLeading_of_problem hline.head?
      obtain ⟨text, rfl⟩ := List.head?_eq_some_iff.1 hline.head?
      have hfits : r.Fits (112 :: text) := .problem hheader hlineHeader hcounts.variableCount_le
      refine fault_endMode_of_fits hfault hmode htext hfits
        fun r' n bytes' hread hfault' hmode' => ?_
      refine fault_endMode_of_rows hbody.not_problem (hbody.spells.isReadable hclauses) hfault'
        hmode' fun hopen => ?_
      rw [hread.namesOpen, hlead, Bool.and_false] at hopen
      cases hopen
  | rows hfirst hbody =>
      exact fault_endMode_of_rows hbody.not_problem (hbody.spells.isReadable hclauses) hfault hmode
        (fun _ => hfirst) htext

/-! ## Clauses -/

theorem endWord_literal (h : SpellsLiteral w l) (hl : 0 < l.number) (r : Reader) :
    r.endWord w = { r with literals := l :: r.literals } := by
  rw [endWord, h.wordNumeral_eq, endNumeral, if_neg (Nat.ne_of_gt hl), Bool.not_not]

theorem endWord_zero (h : SpellsNumber w 0) (r : Reader) :
    r.endWord w =
      { r with
        cnf := r.cnf.add r.literals.reverse
        literals := []
        clauseCount := r.clauseCount + 1 } := by
  rw [endWord, h.spellsLiteral.wordNumeral_eq, endNumeral, if_pos rfl]

/-- The words of literals add them to the clause in progress. -/
theorem foldl_endWord_literals (h : List.Forall₂ SpellsLiteral ws c)
    (hc : ∀ l ∈ c, IsVariable l.number) (r : Reader) :
    ws.foldl endWord r = { r with literals := c.reverse ++ r.literals } := by
  induction h generalizing r with
  | nil => rfl
  | cons hword _ ih =>
      obtain ⟨hl, hc⟩ := List.forall_mem_cons.1 hc
      rw [List.foldl_cons, endWord_literal hword hl.1, ih hc, List.reverse_cons, List.append_assoc]
      rfl

/-- The words of clauses add the clauses in turn. -/
theorem foldl_endWord_clauses (h : SpellsClauses ws clauses)
    (hclauses : ∀ c ∈ clauses, ∀ l ∈ c, IsVariable l.number) (hnone : r.literals = []) :
    (ws.foldl endWord r).literals = [] ∧
      (ws.foldl endWord r).cnf.clauses.toList = r.cnf.clauses.toList ++ clauses := by
  induction h generalizing r with
  | nil => exact ⟨hnone, (List.append_nil _).symm⟩
  | @cons c cs ws ws' zero hliterals hzero _ ih =>
      obtain ⟨hc, hcs⟩ := List.forall_mem_cons.1 hclauses
      rw [List.foldl_append, List.foldl_cons, foldl_endWord_literals hliterals hc,
        endWord_zero hzero]
      obtain ⟨hliterals, hclauses⟩ := ih hcs (r := { r with
        cnf := r.cnf.add (c.reverse ++ r.literals).reverse
        literals := []
        clauseCount := r.clauseCount + 1 }) rfl
      refine ⟨hliterals, hclauses.trans ?_⟩
      simp [Cnf.add, hnone]

/-- Counts that agree with the clauses pass the check at the end. -/
theorem Tallies.checkHeader_eq_ok (h : r.Tallies) (hclauses : r.cnf.clauses.toList = clauses)
    (hheader : r.header = declared) (hdeclared : ∀ h ∈ declared, Declares h clauses) :
    r.checkHeader = .ok () := by
  rw [Reader.checkHeader, hheader]
  cases declared with
  | none => rfl
  | some header =>
      have hcounts := hdeclared header rfl
      have hvariables : r.cnf.variableCount = header.variableCount := by
        refine Nat.le_antisymm ((h.variableCount_le_iff _).2 ⟨fun h' hh' => ?_, fun c hc => ?_⟩)
          (((h.variableCount_le_iff _).1 (Nat.le_refl _)).1 header hheader)
        · rw [hheader] at hh'
          cases hh'
          exact Nat.le_refl _
        · rw [← Array.mem_toList_iff, hclauses] at hc
          exact hcounts.number_le c hc
      have hcount : r.clauseCount = header.clauseCount := by
        rw [h.clauseCount, hcounts.clauseCount_eq, ← hclauses, Array.length_toList]
      simp only
      rw [if_neg (not_not.2 hvariables), if_neg (not_not.2 hcount)]

/-- A clause form is known from its clauses and the declared number of variables. -/
theorem Tallies.cnf_eq (h : r.Tallies) (hclauses : r.cnf.clauses.toList = clauses)
    (hheader : r.header = declared) :
    r.cnf = (Cnf.ofClauses clauses).reserve (declared.elim 0 Header.variableCount) := by
  refine Cnf.eq_of_toList (eq_of_forall_ge_iff fun n => ?_)
    (hclauses.trans (Cnf.toList_ofClauses clauses).symm)
  have hdeclared : (∀ h, declared = some h → h.variableCount ≤ n) ↔
      declared.elim 0 Header.variableCount ≤ n := by
    cases declared with
    | none => simp
    | some h => simp
  have hnumbers : (∀ c ∈ r.cnf.clauses, ∀ l ∈ c, l.number ≤ n) ↔
      (Cnf.ofClauses clauses).variableCount ≤ n := by
    rw [Cnf.variableCount_ofClauses_le_iff, ← hclauses]
    simp only [Array.mem_toList_iff]
  rw [h.variableCount_le_iff, hheader, hdeclared, hnumbers, and_comm]
  exact Nat.max_le.symm

/-- After a layout no clause is in progress, and the clauses are those that it spells. -/
theorem Reads.clauses_of_spells {stem : String} {rest : List (List UInt8)}
    (h : Reads { stem } lines rest r) (hspells : SpellsClauses (textWords lines) clauses)
    (hclauses : ∀ c ∈ clauses, ∀ l ∈ c, IsVariable l.number) :
    r.literals = [] ∧ r.cnf.clauses.toList = clauses := by
  obtain ⟨ws, hwords, -, hrest, hliterals, hcnf⟩ := h.words
  have hreadable := hspells.isReadable hclauses
  rw [hwords] at hspells hreadable
  rcases hrest with rfl | rfl
  · rw [List.append_nil] at hspells
    obtain ⟨hnone, hadded⟩ := foldl_endWord_clauses (r := { stem }) hspells hclauses rfl
    exact ⟨hliterals.trans hnone, (congrArg Array.toList hcnf).trans hadded⟩
  · exact absurd rfl (hreadable [45] (List.mem_append_right _ List.mem_cons_self)).ne_minus

end Reader

namespace FeatureModel

variable {bytes : List UInt8} {clauses : List Clause} {entries : List (Nat × String)}
  {declared : Option Header}

/-- A text is read as the names, the counts and the clauses that it spells, in whatever layout.
The names are paired in turn with the stem before them, and all variables are marked as used. -/
theorem parse_layout (hlayout : IsLayout entries declared clauses (textLines bytes))
    (hentries : ∀ e ∈ entries, IsVariable e.1 ∧ IsPlainName e.2)
    (hdeclared : ∀ h ∈ declared, Declares h clauses)
    (hclauses : ∀ c ∈ clauses, ∀ l ∈ c, IsVariable l.number) (stem : String) :
    ∃ m, parse stem bytes = .ok m ∧ m.cnf.clauses.toList = clauses ∧
      m.cnf = (Cnf.ofClauses clauses).reserve (declared.elim 0 Header.variableCount) ∧
      m.names = (Reader.named .empty stem entries).reserve m.cnf.variableCount := by
  have hend := Reader.fault_endMode_of_layout (r := { stem }) hlayout hentries hdeclared hclauses
    rfl rfl rfl rfl
  obtain ⟨rest, hreads⟩ := Reader.reads_of_fault (r := { stem }) rfl rfl hend
  obtain ⟨hliterals, hclauses⟩ := hreads.clauses_of_spells hlayout.spells hclauses
  have hheader := hreads.header.trans (hlayout.declared?_eq hdeclared)
  have hnames := hreads.names.1
  rw [if_pos rfl, hlayout.namings_eq fun e he => (hentries e he).2] at hnames
  have htallies := hreads.tallies (Reader.tallies_start stem)
  have hcheck := htallies.checkHeader_eq_ok hclauses hheader hdeclared
  have hcnf := htallies.cnf_eq hclauses hheader
  have hread := Reader.readAll_eq (r := { stem }) (Reader.fault_of_endMode hend) hend hliterals
    hcheck
  refine ⟨_, by rw [parse, hread]; rfl, hclauses, hcnf, ?_⟩
  rw [← hnames]
  exact NameTable.reserve_reserve _ _

/-- A layout with all kinds of line ends, a comment that comes too late to name a variable, a
comment inside a clause that is no UTF-8 text, and several blanks and zeros. -/
def layoutExample : List UInt8 :=
  "c 1 A b\r\n\nc 3 é\rp  cnf\t3  2 \nc 2 X\n 01 -3\r\nc ".toUTF8.toList ++
    [0xFF] ++ "\n0\n \n-0002 00".toUTF8.toList

theorem parse_layout_example :
    IsLayout [(1, "A b"), (3, "é")] (some ⟨3, 2⟩) [[⟨1, true⟩, ⟨3, false⟩], [⟨2, false⟩]]
        (textLines layoutExample) ∧
      ∃ m, parse "M_" layoutExample = .ok m ∧
        m.cnf.clauses.toList = [[⟨1, true⟩, ⟨3, false⟩], [⟨2, false⟩]] ∧
        m.names.toList = [(1, "M_A b"), (3, "M_é")] := by
  have hlines : textLines layoutExample =
      [Utf8.encode (namingText (1, "A b")), [], [], Utf8.encode (namingText (3, "é")),
        Utf8.encode "p  cnf\t3  2 ", Utf8.encode "c 2 X", Utf8.encode " 01 -3", [],
        [99, 32, 0xFF], Utf8.encode "0", [32], Utf8.encode "-0002 00"] := by decide +kernel
  have hwords : textWords [Utf8.encode "c 2 X", Utf8.encode " 01 -3", [], [99, 32, 0xFF],
      Utf8.encode "0", [32], Utf8.encode "-0002 00"] =
        [[48, 49], [45, 51]] ++ [48] :: ([[45, 48, 48, 48, 50]] ++ [[48, 48]]) := by
    decide +kernel
  have hspells : SpellsClauses
      ([[48, 49], [45, 51]] ++ [48] :: ([[45, 48, 48, 48, 50]] ++ [[48, 48]]))
      [[⟨1, true⟩, ⟨3, false⟩], [⟨2, false⟩]] :=
    .cons (.cons ⟨[48, 49], ⟨1, by rfl⟩, rfl⟩ (.cons ⟨[51], ⟨0, by rfl⟩, rfl⟩ .nil)) ⟨0, by rfl⟩
      (.cons (.cons ⟨[48, 48, 48, 50], ⟨3, by rfl⟩, rfl⟩ .nil) ⟨1, by rfl⟩ .nil)
  have hheader : SpellsHeader (Utf8.encode "p  cnf\t3  2 ") ⟨3, 2⟩ :=
    ⟨" ", "\t", "  ", " ", by decide, by decide, by decide, by decide, by decide, by decide, by rfl⟩
  have hlayout : IsLayout [(1, "A b"), (3, "é")] (some ⟨3, 2⟩)
      [[⟨1, true⟩, ⟨3, false⟩], [⟨2, false⟩]] (textLines layoutExample) := by
    rw [hlines]
    refine .naming (.blank (by simp) (.blank (by simp) (.naming (.problem hheader ?_))))
    exact ⟨by decide +kernel, by rw [hwords]; exact hspells⟩
  have hcounts : Declares ⟨3, 2⟩ [[⟨1, true⟩, ⟨3, false⟩], [⟨2, false⟩]] :=
    ⟨rfl, by decide, by decide, by decide⟩
  obtain ⟨m, hparse, hclauses, -, hnames⟩ := parse_layout hlayout (by decide)
    (by rintro h ⟨⟩; exact hcounts) (by decide) "M_"
  refine ⟨hlayout, m, hparse, hclauses, ?_⟩
  rw [hnames]
  rfl

end FeatureModel

end Presence
