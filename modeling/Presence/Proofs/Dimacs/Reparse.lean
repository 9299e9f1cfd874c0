import Presence.Proofs.Dimacs.Mark
import Presence.Proofs.Dimacs.RoundTrip

/-!
# Reading a written model once more

A feature model that was read from a text can be written with the same stem, and then reading and
writing once more changes nothing (`FeatureModel.reparse_render`).

The two halves meet at `FeatureModel.Writable`.  The lines of an accepted text give variables
their names and numbers in such a way that the model can be written: a name that was read stands
on one line and does not end in a blank, whatever bytes it came from.  And what can be written is
read back.  All names begin with the stem, so none of them is lost.
-/

namespace Presence

open Dimacs

variable {stem : String} {bytes : List UInt8} {m : FeatureModel} {r : Reader} {n : String} {k : Nat}
  {lines rest : List (List UInt8)}

namespace Reader

/-- A name that was read is the stem and a name that a comment gives. -/
theorem Reads.exists_name (h : Reads { stem } lines rest r) (hn : r.names.number? n = some k) :
    ∃ name, n = stem ++ name ∧ IsVariable k ∧ IsPlainName name := by
  obtain ⟨hnames, hentries⟩ := h.names
  rw [hnames, if_pos rfl] at hn
  rcases number?_named hn with hempty | ⟨name, hn, hmem⟩
  · rw [NameTable.number?_empty] at hempty
    cases hempty
  · exact ⟨name, hn, hentries rfl _ hmem⟩

end Reader

namespace FeatureModel

/-- A feature model that was read can be written. -/
theorem writable_of_parse (h : parse stem bytes = .ok m)
    (hsize : m.cnf.clauses.size ≤ Count.largest) : m.Writable stem := by
  obtain ⟨rest, r, hreads, hliterals, -, hcnf, hnames⟩ := exists_reads h
  have htallies := hreads.tallies (Reader.tallies_start stem)
  refine ⟨fun c hc l hl => ?_, ?_, hsize, fun name k hname => ?_⟩
  · rw [hcnf] at hc
    have hl := List.mem_flatten_of_mem (Array.mem_toList_iff.2 hc) hl
    rw [hreads.flatten_clauses hliterals] at hl
    exact (hreads.isVariable l hl).1
  · rw [hcnf, hreads.variableCount_le_iff hliterals]
    refine ⟨fun header hheader => ?_, fun l hl => (hreads.isVariable l hl).2⟩
    exact htallies.declared_le header (hreads.header.trans hheader)
  · rw [hnames] at hname
    obtain ⟨name', hname, hentry⟩ := hreads.exists_name hname
    rwa [(String.append_right_inj stem).1 hname]

/-- All names of a feature model that was read begin with the stem. -/
theorem stem_of_parse (h : parse stem bytes = .ok m) (hn : m.names.number? n = some k) :
    stem.toList <+: n.toList := by
  obtain ⟨rest, r, hreads, -, -, -, hnames⟩ := exists_reads h
  rw [hnames] at hn
  obtain ⟨name, rfl, -⟩ := hreads.exists_name hn
  rw [String.toList_append]
  exact List.prefix_append ..

/-- A model that was read, written and read again with one stem has the same clauses and variables
and the same names with the same numbers, and is written as the same text.  The number of
clauses has to fit a count of 64 bits, like every number of values in memory. -/
theorem reparse_render (h : parse stem bytes = .ok m)
    (hsize : m.cnf.clauses.size ≤ Count.largest) :
    ∃ m', parse stem (Utf8.encode (m.render stem)) = .ok m' ∧ m'.cnf = m.cnf ∧
      (∀ name, m'.names.number? name = m.names.number? name) ∧
      m'.render stem = m.render stem := by
  have hnames : ∀ name, (m.names.keepStem stem).number? name = m.names.number? name := by
    intro name
    refine Option.ext fun k => ?_
    rw [NameTable.number?_keepStem_iff, and_iff_left_of_imp fun hk => stem_of_parse h hk]
  have hlist : (m.names.keepStem stem).toList = m.names.toList :=
    NameTable.toList_eq_of_number? hnames
  have hrender : (m.names.keepStem stem).render stem = m.names.render stem := by
    rw [NameTable.render, hlist]
    rfl
  exact ⟨_, (writable_of_parse h hsize).parse_render, rfl, hnames,
    congrArg (· ++ m.cnf.render) hrender⟩

/-- A text with a name that moves, a name that is not in Unicode and ends in a blank, leading zeros,
a negative 0, and a problem line after the clauses. -/
def unusualExample : List UInt8 :=
  "c 2 A\nc 007 A\nc 1 B".toUTF8.toList ++ 255 :: " \n-01 2 -0\r\np cnf 7 1".toUTF8.toList

theorem reparse_render_example :
    ∃ m m', parse "M_" unusualExample = .ok m ∧
      parse "M_" (Utf8.encode "c 1 B\uFFFD\nc 7 A\np cnf 7 1\n-1 2 0\n") = .ok m' ∧
      m'.cnf = m.cnf ∧ m'.names.number? "M_A" = m.names.number? "M_A" ∧
      m'.render "M_" = "c 1 B\uFFFD\nc 7 A\np cnf 7 1\n-1 2 0\n" := by
  have hread : (parse "M_" unusualExample).toOption.map
      (fun m => (m.cnf.clauses.size, m.render "M_")) =
        some (1, "c 1 B\uFFFD\nc 7 A\np cnf 7 1\n-1 2 0\n") := by decide +kernel
  obtain ⟨m, hparse, hm⟩ := exists_of_map_toOption hread
  obtain ⟨hsize, hrender⟩ := Prod.mk.inj hm
  obtain ⟨m', hparse', hcnf, hnames, hrender'⟩ :=
    reparse_render hparse (by rw [hsize]; decide)
  rw [hrender] at hparse' hrender'
  exact ⟨m, m', hparse, hparse', hcnf, hnames "M_A", hrender'⟩

end FeatureModel
end Presence
