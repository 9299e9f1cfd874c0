import Presence.Proofs.Dimacs.UsedNumbers
import Presence.Proofs.Dimacs.Words

/-!
# Accepted texts

A text that is accepted falls into lines of four kinds: comments that name nothing, naming
comments, one problem line at most, and rows of numerals.  Each kind of line is a constructor of
`Reader.ReadsLine`, which says what a line of that kind must be like and what it does to the
reader.  `Reader.Reads` puts lines together.

Whatever is accepted was read in this way (`Reader.exists_reads`), so that a property of accepted
texts is shown by one case for each kind of line.
-/

namespace Presence

open Dimacs

namespace Dimacs

/-! ## Lines -/

/-- The number and the name of a line that is a naming comment. -/
def lineNaming? : List UInt8 → Option (Nat × String)
  | 99 :: text =>
      (Reader.naming? (Utf8.decodeReplacing text).toList).map fun naming =>
        (Count.ofDigits naming.1, String.ofList naming.2)
  | _ => none

/-- The counts of a line that is a problem line. -/
def lineHeader? (line : List UInt8) : Option Header :=
  Reader.header? (Utf8.decodeReplacing line).toList

theorem naming?_eq_some {chars digits name : List Char}
    (h : Reader.naming? chars = some (digits, name)) :
    name ≠ [] ∧ (∀ c ∈ name, c ∈ chars) ∧ name.getLast?.any isBlankChar = false := by
  unfold Reader.naming? at h
  split at h
  next text =>
    simp only at h
    split at h
    next => cases h
    next hshape =>
      cases h
      refine ⟨?_, fun c hc => ?_, getLast?_trimEnd _⟩
      · intro hnil
        rw [hnil, List.isEmpty_nil, Bool.or_true, Bool.true_or] at hshape
        exact hshape rfl
      · have hdrop := List.mem_of_mem_drop (mem_of_mem_trimEnd hc)
        exact List.mem_cons_of_mem _ ((List.dropWhile_sublist _).subset hdrop)
  next => cases h

/-- A name that a comment gives can stand at the end of a line. -/
theorem isPlainName_of_lineNaming? {line : List UInt8} {k : Nat} {name : String}
    (hline : ∀ b ∈ line, Reader.isLineEnd b = false) (h : lineNaming? line = some (k, name)) :
    IsPlainName name := by
  unfold lineNaming? at h
  split at h
  next text =>
    obtain ⟨⟨digits, chars⟩, hnaming, heq⟩ := Option.map_eq_some_iff.1 h
    cases heq
    obtain ⟨hne, hsubset, hlast⟩ := naming?_eq_some hnaming
    have hbytes : ∀ c : Char, 0 < c.toNat → c.toNat < 128 →
        Reader.isLineEnd (UInt8.ofNat c.toNat) = true → c ∉ chars := by
      intro c hpos hascii hend hc
      have hmem := Utf8.mem_of_mem_decodeReplacing (hsubset c hc) hpos hascii
      rw [hline _ (List.mem_cons_of_mem _ hmem)] at hend
      cases hend
    refine ⟨?_, ?_, ?_⟩
    · intro hempty
      rw [← String.toList_eq_nil_iff, String.toList_ofList] at hempty
      exact hne hempty
    · rw [IsOneLine, String.toList_ofList]
      exact ⟨hbytes _ (by decide) (by decide) (by decide),
        hbytes _ (by decide) (by decide) (by decide)⟩
    · rw [String.toList_ofList]
      exact hlast
  next => cases h

end Dimacs

namespace Reader

/-! ## Reading line by line -/

/-- What a line that is read without a fault does to a reader.  The last component but one is
what is left over at the end of the line, and the number is that of the next line. -/
inductive ReadsLine (r : Reader) (n : Nat) :
    List UInt8 → List (List UInt8) → Reader → Prop where
  | remark {text : List UInt8} (hnaming : r.namesOpen = true → lineNaming? (99 :: text) = none) :
      ReadsLine r n (99 :: text) [] (r.placed .lineStart n r.namesOpen)
  | naming {text : List UInt8} {k : Nat} {name : String} (hopen : r.namesOpen = true)
      (hnaming : lineNaming? (99 :: text) = some (k, name)) (hk : IsVariable k)
      (hname : IsPlainName name) :
      ReadsLine r n (99 :: text) []
        ({ r with names := r.names.insert (r.stem ++ name) k }.placed .lineStart n r.namesOpen)
  | problem {text : List UInt8} {h : Header} (hnone : r.header = none)
      (hheader : lineHeader? (112 :: text) = some h) (hle : h.variableCount ≤ largestVariable) :
      ReadsLine r n (112 :: text) []
        ({ r with header := some h, cnf := r.cnf.reserve h.variableCount }.placed .lineStart n false)
  | row {line : List UInt8} {ws rest : List (List UInt8)} (hcomment : line.head? ≠ some 99)
      (hproblem : line.head? ≠ some 112) (hwords : lineWords line = ws ++ rest)
      (hws : ∀ w ∈ ws, IsReadable w) (hrest : rest = [] ∨ rest = [[45]]) :
      ReadsLine r n line rest
        ((ws.foldl endWord r).placed .lineStart n (r.namesOpen && line.all (· == 32)))

/-- What a text that is read without a fault does to a reader, line by line.  Only the last
line can leave something over. -/
inductive Reads : Reader → List (List UInt8) → List (List UInt8) → Reader → Prop where
  | last {r r' : Reader} {n : Nat} {line : List UInt8} {rest : List (List UInt8)}
      (h : ReadsLine r n line rest r') : Reads r [line] rest r'
  | cons {r r' r'' : Reader} {n : Nat} {line : List UInt8} {lines rest : List (List UInt8)}
      (h : ReadsLine r n line [] r') (hs : Reads r' lines rest r'') :
      Reads r (line :: lines) rest r''

variable {r r' : Reader} {line text bytes : List UInt8} {b : UInt8} {n : Nat}

/-! ## Lines of text -/

/-- A comment that may name a variable is no naming comment, or it names one. -/
theorem endNaming_cases (hfault : (r.endNaming text).fault = none) :
    (lineNaming? (99 :: text.reverse) = none ∧ r.endNaming text = r.inMode .lineStart) ∨
      ∃ k name, lineNaming? (99 :: text.reverse) = some (k, name) ∧ IsVariable k ∧
        r.endNaming text =
          { r with names := r.names.insert (r.stem ++ name) k }.inMode .lineStart := by
  simp only [endNaming, lineNaming?] at hfault ⊢
  cases hnaming : naming? (Utf8.decodeReplacing text.reverse).toList with
  | none => exact Or.inl ⟨rfl, rfl⟩
  | some naming =>
      obtain ⟨digits, name⟩ := naming
      rw [hnaming] at hfault
      simp only at hfault ⊢
      split at hfault
      next => cases hfault
      next hle =>
        split at hfault
        next => cases hfault
        next hne =>
          rw [if_neg hle, if_neg hne]
          exact Or.inr ⟨_, _, rfl, ⟨Nat.pos_of_ne_zero hne, Nat.le_of_not_lt hle⟩, rfl⟩

/-- A problem line declares its counts. -/
theorem endProblem_cases (hfault : (r.endProblem text).fault = none) :
    ∃ h, lineHeader? text.reverse = some h ∧ h.variableCount ≤ largestVariable ∧
      r.endProblem text =
        { r with header := some h, cnf := r.cnf.reserve h.variableCount }.inMode .lineStart := by
  simp only [endProblem, lineHeader?] at hfault ⊢
  cases hheader : header? (Utf8.decodeReplacing text.reverse).toList with
  | none =>
      rw [hheader] at hfault
      cases hfault
  | some h =>
      rw [hheader] at hfault
      simp only at hfault ⊢
      split at hfault
      next => cases hfault
      next hle =>
        rw [if_neg hle]
        exact ⟨h, rfl, Nat.le_of_not_lt hle, rfl⟩

theorem mode_endNaming (r : Reader) (text : List UInt8) : (r.endNaming text).mode = .lineStart := by
  simp only [endNaming]
  split
  · rfl
  · split
    · rfl
    · split
      · rfl
      · rfl

theorem mode_endProblem (r : Reader) (text : List UInt8) :
    (r.endProblem text).mode = .lineStart := by
  simp only [endProblem]
  split
  · rfl
  · split
    · rfl
    · rfl

theorem foldl_step_remark (hfault : r.fault = none) (hmode : r.mode = .remark)
    (hline : ∀ b ∈ line, isLineEnd b = false) : line.foldl step r = r := by
  induction line with
  | nil => rfl
  | cons b line ih =>
      obtain ⟨hb, hline⟩ := List.forall_mem_cons.1 hline
      have hfeed : b ≠ 10 := by
        rintro rfl
        cases hb
      have hstep : r.step b = r := by
        rw [step_eq hfault, if_neg hfeed, modeByte, hmode]
        simp only [hb]
        rfl
      rw [List.foldl_cons, hstep, ih hline]

/-! ## Ends of lines -/

/-- A blank or the end of a line ends a numeral. -/
theorem clauseByte_gap {atStart : Bool} {pending : Numeral} (hb : b = 32 ∨ isLineEnd b = true)
    (hpending : pending ≠ .minus) :
    r.clauseByte atStart pending b =
      (r.endNumeral pending).inMode (if b = 32 then .clauses .absent else .lineStart) := by
  have hbyte : b = 32 ∨ b = 10 ∨ b = 13 := by simpa [isLineEnd] using hb
  have hdigit : digit? b = none := by rcases hbyte with rfl | rfl | rfl <;> rfl
  have hminus : ¬(b = 45 ∧ pending = .absent) := by
    rintro ⟨rfl, -⟩
    simp at hbyte
  simp only [clauseByte, hdigit]
  rw [if_neg hminus, if_pos ⟨hb, hpending⟩]
  rfl

/-- After a lone minus sign the end of a line is a fault. -/
theorem ne_minus_of_lineEnd {atStart : Bool} {pending : Numeral} (hb : isLineEnd b = true)
    (hfault : (r.clauseByte atStart pending b).fault = none) : pending ≠ .minus := by
  have hbyte : b = 10 ∨ b = 13 := by simpa [isLineEnd] using hb
  have hdigit : digit? b = none := by rcases hbyte with rfl | rfl <;> rfl
  rcases clauseByte_cases hdigit hfault with ⟨rfl, -⟩ | ⟨rfl, -⟩ | ⟨-, h, -⟩ | ⟨rfl, -⟩ | ⟨rfl, -⟩
  · cases hb
  · cases hb
  · exact h
  · cases hb
  · cases hb

theorem inMode_mode {mode : Mode} (h : r.mode = mode) : r.inMode mode = r := by
  cases h
  rfl

/-- A byte is read in the line that the reader is in or in the next one. -/
theorem exists_step_eq (hfault : r.fault = none) (b : UInt8) :
    ∃ n, r.step b = modeByte { r with line := n } b := by
  rw [step_eq hfault]
  split
  · exact ⟨r.line + 1, rfl⟩
  · exact ⟨r.line, rfl⟩

/-- The end of a line ends what is being read, unless that is a minus sign. -/
theorem step_eq_endLine (hfault : r.fault = none) (hb : isLineEnd b = true)
    (hminus : r.mode ≠ .clauses .minus) : ∃ n, r.step b = r.endLine n := by
  obtain ⟨n, hbyte⟩ := exists_step_eq hfault b
  refine ⟨n, hbyte.trans ?_⟩
  have hblank : b ≠ 32 := by
    rintro rfl
    cases hb
  simp only [modeByte, endLine, endMode]
  cases hmode : r.mode with
  | lineStart =>
      simp only
      rw [clauseByte_gap (Or.inr hb) (by simp), if_neg hblank]
      rfl
  | clauses pending =>
      simp only
      rw [clauseByte_gap (Or.inr hb) fun h => hminus (hmode.trans (congrArg _ h)), if_neg hblank]
      rfl
  | naming text =>
      simp only [hb, if_true]
      exact (inMode_mode (mode_endNaming _ text)).symm
  | remark =>
      simp only [hb, if_true]
      rfl
  | problem text =>
      simp only [hb, if_true]
      exact (inMode_mode (mode_endProblem _ text)).symm

theorem step_lineEnd (hfault : r.fault = none) (hb : isLineEnd b = true)
    (hstep : (r.step b).fault = none) :
    r.mode ≠ .clauses .minus ∧ ∃ n, r.step b = r.endLine n := by
  have hminus : r.mode ≠ .clauses .minus := by
    intro hmode
    obtain ⟨n, hbyte⟩ := exists_step_eq hfault b
    simp only [hbyte, modeByte, hmode] at hstep
    exact ne_minus_of_lineEnd hb hstep rfl
  exact ⟨hminus, step_eq_endLine hfault hb hminus⟩

/-! ## Whole texts -/

/-- Ending a line makes no fault good. -/
theorem fault_of_endMode (h : r.endMode.fault = none) : r.fault = none := by
  rw [endMode] at h
  cases hmode : r.mode with
  | lineStart | remark =>
      rw [hmode] at h
      exact h
  | clauses pending =>
      rw [hmode] at h
      have hend : (r.endNumeral pending).fault = none := h
      rw [endNumeral_eq] at hend
      exact hend
  | naming text =>
      rw [hmode] at h
      simp only at h
      rcases endNaming_cases h with ⟨-, heq⟩ | ⟨k, name, -, -, heq⟩
      · rw [heq] at h
        exact h
      · rw [heq] at h
        exact h
  | problem text =>
      rw [hmode] at h
      simp only at h
      obtain ⟨header, -, -, heq⟩ := endProblem_cases h
      rw [heq] at h
      exact h

theorem fault_of_endLine (h : (r.endLine n).fault = none) : r.fault = none :=
  fault_of_endMode (r := { r with line := n }) h

/-- The end of a comment that may name a variable. -/
theorem endLine_naming (r : Reader) (text : List UInt8) (n : Nat) :
    ((r.inMode (.naming [])).inMode (.naming text)).endLine n =
      ({ r with line := n, mode := .naming text }.endNaming text).inMode .lineStart := rfl

/-- The end of a problem line. -/
theorem endLine_problem (r : Reader) (text : List UInt8) (n : Nat) :
    ((r.inMode (.problem [112])).namesClosed.inMode (.problem text)).endLine n =
      ({ r with line := n, namesOpen := false, mode := .problem text }.endProblem text).inMode
        .lineStart := rfl

theorem readsLine_comment (hfault : r.fault = none) (hmode : r.mode = .lineStart)
    (htext : ∀ b ∈ text, isLineEnd b = false) (n : Nat)
    (hread : (((99 :: text).foldl step r).endLine n).fault = none) :
    ReadsLine r n (99 :: text) [] (((99 :: text).foldl step r).endLine n) := by
  have hbytes : ∀ b ∈ 99 :: text, isLineEnd b = false := List.forall_mem_cons.2 ⟨rfl, htext⟩
  rw [List.foldl_cons, step_comment hfault hmode] at hread ⊢
  cases hopen : r.namesOpen with
  | false =>
      have hmid := foldl_step_remark (r := r.inMode .remark) hfault rfl htext
      rw [if_neg Bool.false_ne_true, hmid]
      exact .remark fun h => absurd (hopen.symm.trans h) Bool.false_ne_true
  | true =>
      have hmid := collects_naming.foldl_step (r := r.inMode (.naming [])) htext hfault rfl
      rw [hopen] at hread
      rw [if_pos rfl, hmid, List.append_nil] at hread ⊢
      rw [endLine_naming] at hread ⊢
      rcases endNaming_cases hread with ⟨hnaming, heq⟩ | ⟨k, name, hnaming, hk, heq⟩
      · rw [List.reverse_reverse] at hnaming
        rw [heq]
        exact .remark fun _ => hnaming
      · rw [List.reverse_reverse] at hnaming
        rw [heq]
        exact .naming hopen hnaming hk (isPlainName_of_lineNaming? hbytes hnaming)

theorem readsLine_problem (hfault : r.fault = none) (hmode : r.mode = .lineStart)
    (htext : ∀ b ∈ text, isLineEnd b = false) (n : Nat)
    (hread : (((112 :: text).foldl step r).endLine n).fault = none) :
    ReadsLine r n (112 :: text) [] (((112 :: text).foldl step r).endLine n) := by
  rw [List.foldl_cons] at hread ⊢
  have hbyte : r.step 112 = r.clauseByte true .absent 112 := by
    rw [step_eq hfault, if_neg (by decide), modeByte, hmode]
  have hstep : (r.step 112).fault = none := fault_of_foldl_step (fault_of_endLine hread)
  rw [hbyte] at hstep hread ⊢
  rcases clauseByte_cases rfl hstep with ⟨h, -⟩ | ⟨h, -⟩ | ⟨h, -⟩ | ⟨h, -⟩ | ⟨-, -, hnone, hbegin⟩
  · cases h
  · cases h
  · cases h
  · cases h
  · have hmid := collects_problem.foldl_step (r := (r.inMode (.problem [112])).namesClosed) htext
      hfault rfl
    rw [hbegin, hmid] at hread ⊢
    rw [endLine_problem] at hread ⊢
    obtain ⟨h, hheader, hle, heq⟩ := endProblem_cases hread
    rw [List.reverse_append, List.reverse_reverse] at hheader
    rw [heq]
    exact .problem hnone hheader hle

/-- A line is read without a fault as its first byte says. -/
theorem readsLine_of_fault (hfault : r.fault = none) (hmode : r.mode = .lineStart)
    (hline : ∀ b ∈ line, isLineEnd b = false) (n : Nat)
    (hread : ((line.foldl step r).endLine n).fault = none) :
    ∃ rest, ReadsLine r n line rest ((line.foldl step r).endLine n) ∧
      (rest = [] ∨ (line.foldl step r).mode = .clauses .minus) := by
  by_cases hcomment : line.head? = some 99
  · obtain ⟨text, rfl⟩ := List.head?_eq_some_iff.1 hcomment
    obtain ⟨-, htext⟩ := List.forall_mem_cons.1 hline
    exact ⟨[], readsLine_comment hfault hmode htext n hread, Or.inl rfl⟩
  by_cases hproblem : line.head? = some 112
  · obtain ⟨text, rfl⟩ := List.head?_eq_some_iff.1 hproblem
    obtain ⟨-, htext⟩ := List.forall_mem_cons.1 hline
    exact ⟨[], readsLine_problem hfault hmode htext n hread, Or.inl rfl⟩
  have hmid : (line.foldl step r).fault = none := fault_of_endLine hread
  obtain ⟨ws, rest, hwords, hws, hrest, hend⟩ := endLine_of_row (s := []) hfault
    (Or.inr ⟨hmode, rfl, hcomment, hproblem⟩) .nil (fun h => absurd rfl h) hline hmid n
  rw [hend]
  exact ⟨rest, .row hcomment hproblem hwords hws (hrest.imp_right And.left),
    hrest.imp_right And.right⟩

/-- A text without a fault is read line by line. -/
theorem reads_of_fault (hfault : r.fault = none) (hmode : r.mode = .lineStart)
    (hread : (bytes.foldl step r).endMode.fault = none) :
    ∃ rest, Reads r (textLines bytes) rest ((bytes.foldl step r).endLine (bytes.foldl step r).line) := by
  -- The induction is on the number of bytes, since a whole line is taken off.
  induction hlength : bytes.length using Nat.strongRecOn generalizing r bytes with
  | ind length ih =>
      cases hfind : bytes.find? isLineEnd with
      | none =>
          have hline : ∀ b ∈ bytes, isLineEnd b = false := by
            simpa using List.find?_eq_none.1 hfind
          obtain ⟨rest, hreads, -⟩ := readsLine_of_fault hfault hmode hline
            (bytes.foldl step r).line hread
          rw [textLines, List.splitOnP_eq_singleton hline]
          exact ⟨rest, .last hreads⟩
      | some b =>
          obtain ⟨hb, line, bytes, rfl, hline⟩ := List.find?_eq_some_iff_append.1 hfind
          have hline : ∀ b ∈ line, isLineEnd b = false := by simpa using hline
          rw [List.foldl_append, List.foldl_cons] at hread ⊢
          have hstep := fault_of_foldl_step (fault_of_endMode hread)
          have hend : ([b].foldl step (line.foldl step r)).fault = none := hstep
          have hmid := fault_of_foldl_step hend
          obtain ⟨hminus, n, hend⟩ := step_lineEnd hmid hb hstep
          rw [hend] at hstep hread ⊢
          obtain ⟨rest, hreads, hrest⟩ := readsLine_of_fault hfault hmode hline n hstep
          cases hrest.resolve_right hminus
          have hshorter : bytes.length < length := by
            rw [← hlength, List.length_append, List.length_cons]
            omega
          obtain ⟨rest, hlines⟩ := ih bytes.length hshorter hstep rfl hread rfl
          rw [textLines, List.splitOnP_append_cons_of_forall_mem hline b hb]
          exact ⟨rest, .cons hreads hlines⟩

/-- The end of a text is accepted if no clause is in progress. -/
theorem finish_eq_ok (hfault : r.fault = none) (h : r.finish = (r', .ok ())) :
    r.endMode.fault = none ∧ r.endMode.literals = [] ∧
      r' = { r.endMode with names := r.endMode.names.reserve r.endMode.cnf.variableCount } := by
  simp only [finish, hfault] at h
  split at h
  next => cases h
  next hnone =>
    split at h
    next hliterals =>
      refine ⟨Option.eq_none_iff_forall_ne_some.2 fun cause hcause => hnone cause rfl hcause,
        List.isEmpty_iff.1 hliterals, (Prod.ext_iff.1 h).1.symm⟩
    next => cases h

/-- An accepted text was read line by line, to the end of its last clause. -/
theorem exists_reads {stem : String} (h : readAll { stem } bytes = .ok r) :
    ∃ rest r', Reads { stem } (textLines bytes) rest r' ∧ r'.literals = [] ∧
      r'.checkHeader = .ok () ∧ r.cnf = r'.cnf ∧
      r.names = r'.names.reserve r'.cnf.variableCount := by
  obtain ⟨hfinish, hheader, hfault⟩ := readAll_eq_ok h
  obtain ⟨hend, hliterals, rfl⟩ := finish_eq_ok (hfault rfl) hfinish
  obtain ⟨rest, hreads⟩ := reads_of_fault rfl rfl hend
  exact ⟨rest, _, hreads, hliterals, hheader, rfl, rfl⟩

end Reader

/-- A feature model was read line by line.  All its variables are marked as used. -/
theorem FeatureModel.exists_reads {stem : String} {bytes : List UInt8} {m : FeatureModel}
    (h : parse stem bytes = .ok m) :
    ∃ rest r, Reader.Reads { stem } (textLines bytes) rest r ∧ r.literals = [] ∧
      r.checkHeader = .ok () ∧ m.cnf = r.cnf ∧
      m.names = (r.names.reserve r.cnf.variableCount).reserve r.cnf.variableCount := by
  obtain ⟨r, hread, rfl⟩ := map_eq_ok_iff.1 h
  obtain ⟨rest, r', hreads, hliterals, hheader, hcnf, hnames⟩ := Reader.exists_reads hread
  exact ⟨rest, r', hreads, hliterals, hheader, hcnf, by rw [hnames, hcnf]⟩

end Presence
