import Presence.FeatureModel
import Presence.Proofs.Cnf
import Presence.Proofs.Dimacs.Chunks
import Presence.Proofs.Dimacs.Lines
import Presence.Proofs.NameTable

/-!
# Written feature models

A feature model that is written with a stem and read with the same stem comes back with the
same clauses and the same number of variables.  It keeps exactly the names that begin with the
stem, each with its number, and its mark is the largest number that is then still in use
(`FeatureModel.parse_render_restricts`).

Reading goes line by line.  The naming comments, the problem line and the lines of the
clauses each take the reader on by a step that is known (`Reader.afterNaming`,
`Reader.afterHeader`, `Reader.afterClause`).  So the reader that has read the whole text is
known too (`FeatureModel.Writable.read_render`).
-/

namespace Presence

/-! ## Names with a stem -/

variable {stem name n : String} {k : Nat} {t : NameTable} {r : Reader}

theorem dropStem?_append (stem rest : String) : dropStem? stem (stem ++ rest) = some rest := by
  have hstem : stem.toList.isPrefixOf (stem ++ rest).toList = true := by
    rw [String.toList_append, List.isPrefixOf_iff_prefix]
    exact List.prefix_append ..
  rw [dropStem?, if_pos hstem, String.toList_append, ← String.length_toList, List.drop_left,
    String.ofList_toList]

theorem dropStem?_eq_none (h : stem.toList.isPrefixOf name.toList = false) :
    dropStem? stem name = none := by
  rw [dropStem?, h]
  rfl

/-- A name that begins with the stem is the stem and a rest. -/
theorem exists_eq_append (h : stem.toList.isPrefixOf name.toList = true) :
    ∃ rest, name = stem ++ rest := by
  obtain ⟨rest, hrest⟩ := List.isPrefixOf_iff_prefix.1 h
  refine ⟨String.ofList rest, String.toList_inj.1 ?_⟩
  rw [String.toList_append, String.toList_ofList, hrest]

namespace NameTable

/-- The entries whose names begin with the stem. -/
def withStem (t : NameTable) (stem : String) : List (Nat × String) :=
  t.toList.filter fun e => stem.toList.isPrefixOf e.2.toList

/-- The largest number that has a name with the stem, 0 if there is none. -/
def largestWithStem (t : NameTable) (stem : String) : Nat :=
  ((t.withStem stem).map Prod.fst).foldl max 0

/-- A table with only the names that begin with the stem. -/
def keepStem (t : NameTable) (stem : String) : NameTable :=
  (t.withStem stem).foldl (fun s e => s.insert e.2 e.1) .empty

theorem mem_withStem_iff :
    (k, n) ∈ t.withStem stem ↔ t.number? n = some k ∧ stem.toList <+: n.toList := by
  rw [withStem, List.mem_filter, mem_toList_iff, List.isPrefixOf_iff_prefix]

theorem number?_keepStem_iff :
    (t.keepStem stem).number? n = some k ↔ t.number? n = some k ∧ stem.toList <+: n.toList := by
  have hempty : ∀ n k, empty.number? n ≠ some k := fun n k => by
    rw [number?_empty]
    exact (Option.some_ne_none k).symm
  have hle : ∀ n k, empty.number? n = some k → t.number? n = some k :=
    fun n k h => absurd h (hempty n k)
  have hentries : ∀ e ∈ t.withStem stem, t.number? e.2 = some e.1 :=
    fun _ he => (mem_withStem_iff.1 he).1
  rw [keepStem, number?_foldl_insert_iff hle hentries, or_iff_left (hempty n k),
    mem_withStem_iff]

theorem mark_keepStem : (t.keepStem stem).mark = t.largestWithStem stem :=
  mark_foldl_insert (t.withStem stem) empty

end NameTable

/-! ## Reading a written model -/

namespace Reader

/-- The names of the comments that are written are paired in turn. -/
theorem AtLine.foldl_read_naming {entries : List (Nat × String)} (h : r.AtLine)
    (hopen : r.namesOpen = true)
    (hentries : ∀ rest k, (k, r.stem ++ rest) ∈ entries → IsVariable k ∧ IsPlainName rest) :
    (entries.filterMap (namingLine? r.stem)).foldl read r =
      (entries.filter fun e => r.stem.toList.isPrefixOf e.2.toList).foldl afterNaming r := by
  induction entries generalizing r with
  | nil => rfl
  | cons e entries ih =>
      obtain ⟨k, name⟩ := e
      have hrest := fun rest k hmem => hentries rest k (List.mem_cons_of_mem _ hmem)
      cases hstem : r.stem.toList.isPrefixOf name.toList with
      | false =>
          have hnone : namingLine? r.stem (k, name) = none := by
            rw [namingLine?, dropStem?_eq_none hstem]
            rfl
          rw [List.filterMap_cons_none hnone, List.filter_cons, hstem, ih h hopen hrest]
          rfl
      | true =>
          obtain ⟨rest, rfl⟩ := exists_eq_append hstem
          obtain ⟨hk, hname⟩ := hentries rest k List.mem_cons_self
          have hsome : namingLine? r.stem (k, r.stem ++ rest) =
              some ("c " ++ toString k ++ " " ++ rest ++ "\n") := by
            rw [namingLine?, dropStem?_append]
            rfl
          have hline : (r.afterNaming (k, r.stem ++ rest)).AtLine := ⟨h.fault, h.mode, h.literals⟩
          rw [List.filterMap_cons_some hsome, List.filter_cons, if_pos hstem, List.foldl_cons,
            List.foldl_cons, h.read_namingLine hopen hname hk]
          exact ih hline hopen hrest

theorem foldl_afterNaming (entries : List (Nat × String)) (r : Reader) :
    entries.foldl afterNaming r =
      { r with
        names := entries.foldl (fun t e => t.insert e.2 e.1) r.names
        line := r.line + entries.length } := by
  induction entries generalizing r with
  | nil => rfl
  | cons e entries ih =>
      rw [List.foldl_cons, ih, afterNaming, onNextLine, List.length_cons]
      simp only [List.foldl_cons, Nat.add_right_comm, Nat.add_assoc]

theorem AtLine.afterClause (h : r.AtLine) (c : Clause) : (r.afterClause c).AtLine :=
  ⟨h.fault, rfl, rfl⟩

/-- The lines of clauses add them in turn. -/
theorem AtLine.foldl_read_clause {cs : List Clause} (h : r.AtLine)
    (hcs : ∀ c ∈ cs, ∀ l ∈ c, IsVariable l.number) :
    (cs.map Clause.render).foldl read r = cs.foldl Reader.afterClause r := by
  induction cs generalizing r with
  | nil => rfl
  | cons c cs ih =>
      obtain ⟨hc, hcs⟩ := List.forall_mem_cons.1 hcs
      have hgap : r.AtGap := ⟨h.fault, Or.inl h.mode⟩
      rw [List.map_cons, List.foldl_cons, List.foldl_cons, hgap.read_clause hc]
      exact ih (h.afterClause c) hcs

theorem AtLine.foldl_afterClause (h : r.AtLine) (hclosed : r.namesOpen = false)
    (cs : List Clause) :
    cs.foldl Reader.afterClause r =
      { r with
        cnf := cs.foldl Cnf.add r.cnf
        clauseCount := r.clauseCount + cs.length
        line := r.line + cs.length } := by
  induction cs generalizing r with
  | nil => rfl
  | cons c cs ih =>
      have hnext : r.afterClause c =
          { r with
            cnf := r.cnf.add c
            clauseCount := r.clauseCount + 1
            line := r.line + 1 } := by
        simp only [Reader.afterClause, onNextLine, inMode, namesClosed, h.literals, h.mode, hclosed,
          List.reverse_nil, List.nil_append]
      rw [List.foldl_cons, ih (h.afterClause c) rfl, hnext, List.length_cons]
      simp only [List.foldl_cons, Nat.add_right_comm, Nat.add_assoc]

/-- The reader after the lines of a clause form. -/
def afterCnf (r : Reader) (f : Cnf) : Reader :=
  { r with
    cnf := f
    header := some f.header
    clauseCount := f.clauses.size
    namesOpen := false
    line := r.line + 1 + f.clauses.size }

/-- A clause form that is written is read as it was. -/
theorem AtLine.read_cnf (h : r.AtLine) (hheader : r.header = none) (hcnf : r.cnf = .ofCount 0)
    (hcount : r.clauseCount = 0) {f : Cnf} (hvariables : f.variableCount ≤ largestVariable)
    (hclauses : f.clauses.size ≤ Count.largest)
    (hliterals : ∀ c ∈ f.clauses, ∀ l ∈ c, 0 < l.number) : r.read f.render = r.afterCnf f := by
  have hnumbers : ∀ c ∈ f.clauses.toList, ∀ l ∈ c, IsVariable l.number := by
    intro c hc l hl
    have hmem : c ∈ f.clauses := Array.mem_toList_iff.1 hc
    have hlargest := Nat.le_trans (Clause.number_le_largest hl) (f.largest_le c hmem)
    exact ⟨hliterals c hmem l hl, Nat.le_trans hlargest hvariables⟩
  have hline : (r.afterHeader f.header).AtLine := ⟨h.fault, h.mode, h.literals⟩
  rw [Cnf.render, Cnf.renderClauses, read_append, read_join,
    h.read_header hheader hvariables hclauses, hline.foldl_read_clause hnumbers,
    hline.foldl_afterClause rfl, Array.length_toList]
  simp only [afterHeader, onNextLine, namesClosed, Cnf.header, hcnf, hcount,
    Cnf.foldl_add_reserve, Nat.zero_add]
  rfl

/-- The reader that has marked the numbers of all clauses as used. -/
def marked (r : Reader) : Reader := { r with names := r.names.reserve r.cnf.variableCount }

/-- A text may end where no clause is in progress. -/
theorem finish_eq (hfault : r.endMode.fault = none) (hliterals : r.endMode.literals = []) :
    r.finish = (r.endMode.marked, .ok ()) := by
  rw [Reader.finish, hfault]
  cases r.fault <;> simp only [hliterals, List.isEmpty_nil, if_true, marked, hfault]

/-- What was read is checked against its problem line when the source ends. -/
theorem readSource_end (hfault : r.endMode.fault = none) (hliterals : r.endMode.literals = [])
    (hheader : r.endMode.checkHeader = .ok ())
    {source : List (Except DimacsError (List UInt8))} (hsource : source = [] ∨ source = [.ok []]) :
    readSource id pure r source = (.ok r.endMode.marked : Except DimacsError Reader) := by
  have hmarked : r.endMode.marked.checkHeader = .ok () := hheader
  rcases hsource with rfl | rfl <;>
    simp only [readSource, finish_eq hfault hliterals, pure_bind, hmarked] <;> rfl

/-- A text that agrees with its problem line is read to its end. -/
theorem readAll_eq {bytes : List UInt8} (hfault : (bytes.foldl step r).fault = none)
    (hend : (bytes.foldl step r).endMode.fault = none)
    (hliterals : (bytes.foldl step r).endMode.literals = [])
    (hheader : (bytes.foldl step r).endMode.checkHeader = .ok ()) :
    r.readAll bytes = .ok (bytes.foldl step r).endMode.marked := by
  have hfeed : r.feed bytes = (bytes.foldl step r, .ok ()) := by
    rw [feed, if_neg (by rw [fault_of_foldl_step hfault]; exact Bool.false_ne_true)]
    simp only [hfault]
  rw [readAll]
  cases bytes with
  | nil =>
      -- An empty chunk is not read but ends the source.
      exact readSource_end hend hliterals hheader (Or.inr rfl)
  | cons b chunk =>
      rw [readSource, hfeed]
      exact readSource_end hend hliterals hheader (Or.inl rfl)

/-- A text of lines that agree with its problem line is read. -/
theorem readAll_encode {text : String} (hline : (r.read text).AtLine)
    (hheader : (r.read text).checkHeader = .ok ()) :
    r.readAll (Utf8.encode text) = .ok (r.read text).marked := by
  have hend : (r.read text).endMode = r.read text := by rw [endMode, hline.mode]
  have hclosed : (r.read text).endMode.fault = none ∧ (r.read text).endMode.literals = [] ∧
      (r.read text).endMode.checkHeader = .ok () := by
    rw [hend]
    exact ⟨hline.fault, hline.literals, hheader⟩
  have hread : r.readAll (Utf8.encode text) = .ok (r.read text).endMode.marked :=
    readAll_eq hline.fault hclosed.1 hclosed.2.1 hclosed.2.2
  rw [hread, hend]

end Reader

namespace FeatureModel

/-- The model can be written with the stem. -/
structure Writable (stem : String) (m : FeatureModel) : Prop where
  /-- The numbers of the variables count from 1. -/
  literal_pos : ∀ c ∈ m.cnf.clauses, ∀ l ∈ c, 0 < l.number
  /-- There are not too many variables. -/
  variableCount_le : m.cnf.variableCount ≤ largestVariable
  /-- There are not too many clauses. -/
  clauseCount_le : m.cnf.clauses.size ≤ Count.largest
  /-- The numbers of the names that begin with the stem are numbers of variables, and what is
  left of these names can stand at the end of a line. -/
  entries : ∀ rest k, m.names.number? (stem ++ rest) = some k → IsVariable k ∧ IsPlainName rest

/-- `m'` is `m` with no other names than those that begin with the stem. -/
structure Restricts (stem : String) (m m' : FeatureModel) : Prop where
  /-- The clauses and the number of variables are the same. -/
  cnf : m'.cnf = m.cnf
  /-- Names that begin with the stem keep their numbers, and there are no others. -/
  number?_iff : ∀ name k, m'.names.number? name = some k ↔
    m.names.number? name = some k ∧ stem.toList <+: name.toList
  /-- The mark is the largest number that is in use. -/
  mark : m'.names.mark = max m.cnf.variableCount (m.names.largestWithStem stem)

/-- The reader that has read the names of a written model. -/
def afterNames (stem : String) (m : FeatureModel) : Reader where
  stem := stem
  names := m.names.keepStem stem
  line := 1 + (m.names.withStem stem).length

variable {m : FeatureModel}

theorem Writable.read_names (h : m.Writable stem) :
    Reader.read { stem } (m.names.render stem) = m.afterNames stem := by
  have hbegin : Reader.AtLine { stem } := ⟨rfl, rfl, rfl⟩
  have hread := hbegin.foldl_read_naming rfl fun rest k hmem =>
    h.entries rest k (NameTable.mem_toList_iff.1 hmem)
  rw [NameTable.render, Reader.read_join, hread]
  exact Reader.foldl_afterNaming _ _

/-- The reader that has read a written model has its clauses and its names with the stem. -/
theorem Writable.read_render (h : m.Writable stem) :
    Reader.read { stem } (m.render stem) = (m.afterNames stem).afterCnf m.cnf := by
  have hnames : (m.afterNames stem).AtLine := ⟨rfl, rfl, rfl⟩
  rw [render, Reader.read_append, h.read_names]
  exact hnames.read_cnf rfl rfl rfl h.variableCount_le h.clauseCount_le h.literal_pos

/-- A written model is read back with its clauses and with its names that begin with the stem. -/
theorem Writable.parse_render (h : m.Writable stem) :
    parse stem (Utf8.encode (m.render stem)) =
      .ok { cnf := m.cnf
            names := ((m.names.keepStem stem).reserve m.cnf.variableCount).reserve
              m.cnf.variableCount } := by
  have hline : ((m.afterNames stem).afterCnf m.cnf).AtLine := ⟨rfl, rfl, rfl⟩
  have hheader : ((m.afterNames stem).afterCnf m.cnf).checkHeader = .ok () := by
    rw [Reader.checkHeader]
    simp [Reader.afterCnf, Cnf.header]
  rw [← h.read_render] at hline hheader
  have hread := Reader.readAll_encode hline hheader
  rw [h.read_render] at hread
  rw [parse, hread]
  rfl

/-- A model that is written with a stem and read with it keeps its clauses and exactly the
names that begin with the stem. -/
theorem parse_render_restricts (h : m.Writable stem) :
    ∃ m', parse stem (Utf8.encode (m.render stem)) = .ok m' ∧ Restricts stem m m' := by
  refine ⟨_, h.parse_render, rfl, fun name k => NameTable.number?_keepStem_iff, ?_⟩
  have hmark : (m.names.keepStem stem).mark = m.names.largestWithStem stem :=
    NameTable.mark_keepStem
  simp only [NameTable.reserve, hmark]
  omega

/-- A model with an empty clause, a repeated literal, a variable that no clause uses, a name
with a blank, a name without the stem, and a named number above the number of variables. -/
def writtenExample : FeatureModel where
  cnf := (Cnf.ofClauses [[], [⟨1, true⟩], [⟨2, false⟩, ⟨2, false⟩]]).reserve 4
  names := ((NameTable.empty.insert "M_a b" 1).insert "M_é" 9).insert "T" 3

theorem parse_render_restricts_example :
    writtenExample.Writable "M_" ∧
      ∃ m', parse "M_" (Utf8.encode "c 1 a b\nc 9 é\np cnf 4 3\n0\n1 0\n-2 -2 0\n") = .ok m' ∧
        Restricts "M_" writtenExample m' ∧ m'.names.mark = 9 := by
  have hlist : writtenExample.names.toList = [(1, "M_a b"), (3, "T"), (9, "M_é")] := by rfl
  have hwritable : writtenExample.Writable "M_" := by
    refine ⟨by decide, by decide, by decide, fun rest k h => ?_⟩
    have hmem := NameTable.mem_toList_iff.2 h
    rw [hlist] at hmem
    simp only [List.mem_cons, Prod.mk.injEq, List.not_mem_nil, or_false] at hmem
    rcases hmem with ⟨rfl, hname⟩ | ⟨rfl, hname⟩ | ⟨rfl, hname⟩
    · rw [show "M_a b" = "M_" ++ "a b" by decide, String.append_right_inj] at hname
      subst hname
      decide
    · have hlength := congrArg String.length hname
      have hlong : "M_".length = 2 := rfl
      have hshort : "T".length = 1 := rfl
      rw [String.length_append] at hlength
      omega
    · rw [show "M_é" = "M_" ++ "é" by decide, String.append_right_inj] at hname
      subst hname
      decide
  have hrender : writtenExample.render "M_" =
      "c 1 a b\nc 9 é\np cnf 4 3\n0\n1 0\n-2 -2 0\n" := by rfl
  obtain ⟨m', hparse, hrestricts⟩ := parse_render_restricts hwritable
  rw [hrender] at hparse
  exact ⟨hwritable, m', hparse, hrestricts, hrestricts.mark.trans (by rfl)⟩

end FeatureModel

end Presence
