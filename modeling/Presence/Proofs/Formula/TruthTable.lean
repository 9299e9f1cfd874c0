import Presence.Formula.Valuation
import Presence.Proofs.Formula.Meaning
import Presence.Proofs.Formula.Walk
import Mathlib.Data.Fin.Basic
import Mathlib.Data.List.Nodup

/-!
# Truth tables

The search in a truth table answers `true` exactly if some assignment makes the formula hold
(`isSatisfiableByTable_iff`).  Two things are behind this.  Below a power of two every row of
bits is that of one counter (`nodup_bits`, `mem_bits_iff`), and so each combination of truth
values of the names has one row in the table.  And the value of a formula depends on its names
only (`evaluate_congr`), so the combination that an assignment gives to the names decides, and
neither further names nor the fallback of a row count.

The names are those of the formula in the order of first occurrence, and their positions are the
weights of the bits (`rows_exhaust`).
-/

namespace Presence

/-! ## Bits of counters -/

/-- The lowest bits of a counter. -/
def lowBits (width counter : Nat) : List Bool := (List.range width).map counter.testBit

/-- No two counters below the power of two have the same bits. -/
theorem nodup_bits (width : Nat) : ((List.range (Nat.pow 2 width)).map (lowBits width)).Nodup := by
  refine List.Nodup.map_on (fun c hc d hd heq => ?_) List.nodup_range
  rw [List.mem_range] at hc hd
  refine Nat.eq_of_testBit_eq fun i => ?_
  by_cases hi : i < width
  · exact List.map_inj_left.1 heq i (List.mem_range.2 hi)
  · have hle : 2 ^ width ≤ 2 ^ i := Nat.pow_le_pow_right (by decide) (Nat.le_of_not_lt hi)
    rw [Nat.testBit_lt_two_pow (Nat.lt_of_lt_of_le hc hle),
      Nat.testBit_lt_two_pow (Nat.lt_of_lt_of_le hd hle)]

/-- Every row of bits belongs to a counter below the power of two. -/
theorem mem_bits_iff {width : Nat} {bits : List Bool} :
    bits ∈ (List.range (Nat.pow 2 width)).map (lowBits width) ↔ bits.length = width := by
  rw [List.mem_map]
  constructor
  · rintro ⟨c, -, rfl⟩
    rw [lowBits, List.length_map, List.length_range]
  · rintro rfl
    refine ⟨Nat.ofBits bits.get, List.mem_range.2 (Nat.ofBits_lt_two_pow _), ?_⟩
    refine List.ext_getElem (by simp [lowBits]) fun i _ hi => ?_
    simp [lowBits, Nat.testBit_ofBits_lt _ i hi]

/-! ## Rows -/

namespace Valuation

variable {v : Valuation} {entries : List (String × Bool)} {names : List String} {n : String}
  {b : Bool} {i : Nat}

theorem get?_set (v : Valuation) (name : String) (b : Bool) (n : String) :
    (v.set name b).get? n = if name = n then some b else v.get? n := by
  simp only [get?, set, Std.TreeMap.getElem?_insert, Std.LawfulEqCmp.compare_eq_iff_eq]

theorem get?_foldl_set_of_not_mem (h : n ∉ entries.map Prod.fst) :
    (entries.foldl (fun v entry => v.set entry.1 entry.2) v).get? n = v.get? n := by
  induction entries generalizing v with
  | nil => rfl
  | cons entry entries ih =>
      rw [List.map_cons, List.mem_cons, not_or] at h
      rw [List.foldl_cons, ih h.2, get?_set, if_neg (Ne.symm h.1)]

/-- If no name is set twice, each has the value that it was set to. -/
theorem get?_foldl_set_of_mem (hnodup : (entries.map Prod.fst).Nodup) (h : (n, b) ∈ entries) :
    (entries.foldl (fun v entry => v.set entry.1 entry.2) v).get? n = some b := by
  induction entries generalizing v with
  | nil => cases h
  | cons entry entries ih =>
      rw [List.map_cons, List.nodup_cons] at hnodup
      rw [List.foldl_cons]
      rcases List.mem_cons.1 h with rfl | h
      · rw [get?_foldl_set_of_not_mem hnodup.1, get?_set, if_pos rfl]
      · exact ih hnodup.2 h

theorem map_fst_counterEntries (names : List String) (counter : Nat) :
    (names.zipIdx.map fun (name, index) => (name, counter.testBit index)).map Prod.fst = names := by
  rw [List.map_map]
  exact List.zipIdx_map_fst 0 names

/-- A row gives a value to its names only. -/
theorem get?_ofCounter_of_not_mem (h : n ∉ names) (counter : Nat) :
    (ofCounter names counter).get? n = none := by
  rw [ofCounter, ofList, get?_foldl_set_of_not_mem]
  · exact Std.TreeMap.getElem?_emptyc
  · rwa [map_fst_counterEntries]

/-- The value of a name is the bit at the position of the name. -/
theorem get?_ofCounter (hnodup : names.Nodup) (h : names[i]? = some n) (counter : Nat) :
    (ofCounter names counter).get? n = some (counter.testBit i) := by
  rw [ofCounter, ofList]
  refine get?_foldl_set_of_mem ?_ (List.mem_map.2 ⟨(n, i), ?_, rfl⟩)
  · rwa [map_fst_counterEntries]
  · exact List.mem_zipIdx_iff_getElem?.2 h

/-- The truth values of names in order. -/
def combination (names : List String) (v : Valuation) : List Bool := names.map v.value

theorem combination_ofCounter (hnodup : names.Nodup) (counter : Nat) :
    combination names (ofCounter names counter) = lowBits names.length counter := by
  refine List.ext_getElem (by simp [combination, lowBits]) fun i hi _ => ?_
  rw [combination, List.length_map] at hi
  simp [combination, lowBits, value, get?_ofCounter hnodup (List.getElem?_eq_getElem hi)]

end Valuation

namespace Formula

variable {f : Formula} {v w : Valuation}

/-- The valuations that a truth table goes through. -/
def rows (f : Formula) : List Valuation :=
  (List.range (Nat.pow 2 f.names.length)).map (Valuation.ofCounter f.names)

theorem isSatisfiableByTable_eq_any (f : Formula) :
    f.isSatisfiableByTable = f.rows.any f.evaluate := by
  rw [rows, List.any_map]
  rfl

/-- The rows have the combinations of truth values that the bits of the counters are. -/
theorem map_combination_rows (f : Formula) :
    f.rows.map (Valuation.combination f.names) =
      (List.range (Nat.pow 2 f.names.length)).map (lowBits f.names.length) := by
  rw [rows, List.map_map]
  exact List.map_congr_left fun counter _ => Valuation.combination_ofCounter f.nodup_names counter

theorem eq_ofCounter_of_getElem? {counter : Nat} (h : f.rows[counter]? = some v) :
    v = Valuation.ofCounter f.names counter := by
  rw [rows, List.getElem?_map, Option.map_eq_some_iff] at h
  obtain ⟨c, hc, rfl⟩ := h
  obtain ⟨_, rfl⟩ := List.getElem?_eq_some_iff.1 hc
  rw [List.getElem_range]

/-! ## Searching the table -/

/-- Two valuations that agree on the names of a formula give it the same value. -/
theorem evaluate_congr (h : ∀ n ∈ f.atoms, v.value n = w.value n) :
    f.evaluate v = f.evaluate w :=
  eval_congr h

/-- Every assignment agrees with some row on the names of the formula. -/
theorem exists_row (f : Formula) (value : String → Bool) :
    ∃ v ∈ f.rows, ∀ n ∈ f.atoms, v.value n = value n := by
  have hmem : f.names.map value ∈ f.rows.map (Valuation.combination f.names) := by
    rw [map_combination_rows, mem_bits_iff, List.length_map]
  obtain ⟨v, hv, heq⟩ := List.mem_map.1 hmem
  exact ⟨v, hv, fun n hn => List.map_inj_left.1 heq n (mem_names.2 hn)⟩

theorem isSatisfiableByTable_iff (f : Formula) :
    f.isSatisfiableByTable = true ↔ f.Satisfiable := by
  rw [isSatisfiableByTable_eq_any, List.any_eq_true]
  constructor
  · rintro ⟨v, -, heval⟩
    exact ⟨v.value, heval⟩
  · rintro ⟨value, heval⟩
    obtain ⟨v, hv, hagree⟩ := f.exists_row value
    refine ⟨v, hv, ?_⟩
    rw [evaluate, eval_congr hagree, heval]

/-- The search finds a row exactly if some assignment makes the formula hold.  The names are in
the order of first occurrence, and the rows give them every combination of truth values
exactly once.  The row of a counter has the bits of the counter for the names, and no value for
anything else; whatever other values and whatever fallback it had, the formula would have the
same value. -/
theorem rows_exhaust (f : Formula) :
    (f.isSatisfiableByTable = true ↔ ∃ value : String → Bool, f.eval value = true) ∧
    f.isSatisfiableByTable = f.rows.any f.evaluate ∧
    (∀ n, n ∈ f.names ↔ n ∈ f.atoms) ∧
    f.names.Pairwise (fun m n => f.atoms.idxOf m < f.atoms.idxOf n) ∧
    (f.rows.map (Valuation.combination f.names)).Nodup ∧
    (∀ bits, bits ∈ f.rows.map (Valuation.combination f.names) ↔
      bits.length = f.names.length) ∧
    ∀ (counter : Nat) v, f.rows[counter]? = some v →
      (∀ i n, f.names[i]? = some n → v.get? n = some (counter.testBit i)) ∧
      (∀ n, n ∉ f.names → v.get? n = none) ∧
      ∀ w : Valuation, (∀ n ∈ f.names, w.get? n = v.get? n) → f.evaluate w = f.evaluate v := by
  refine ⟨f.isSatisfiableByTable_iff, f.isSatisfiableByTable_eq_any, fun n => mem_names, ?_, ?_,
    fun bits => ?_, fun counter v hv => ?_⟩
  · rw [names_eq_eraseDups]
    exact pairwise_idxOf_eraseDups _
  · rw [map_combination_rows]
    exact nodup_bits _
  · rw [map_combination_rows]
    exact mem_bits_iff
  · obtain rfl := eq_ofCounter_of_getElem? hv
    have hbit : ∀ i n, f.names[i]? = some n →
        (Valuation.ofCounter f.names counter).get? n = some (counter.testBit i) :=
      fun i n hi => Valuation.get?_ofCounter f.nodup_names hi counter
    refine ⟨hbit, fun n hn => Valuation.get?_ofCounter_of_not_mem hn counter, fun w hw => ?_⟩
    refine evaluate_congr fun n hn => ?_
    -- A name of the formula has a value of its own in the row, so no fallback is asked for.
    obtain ⟨i, hi⟩ := List.mem_iff_getElem?.1 (mem_names.2 hn)
    rw [Valuation.value, Valuation.value, hw n (mem_names.2 hn), hbit i n hi, Option.getD_some,
      Option.getD_some]

/-- The first name has the lowest bit. -/
example : (disjunction (negation (atom "B")) (atom "A")).truthTable = [true, false, true, true] := by
  cbv

end Formula

end Presence
