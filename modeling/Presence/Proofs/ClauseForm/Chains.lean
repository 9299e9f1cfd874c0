import Presence.Formula.Family
import Presence.Proofs.ClauseForm.Freshness
import Presence.Proofs.ClauseForm.Growth
import Presence.Proofs.ClauseForm.Limits
import Presence.Proofs.ClauseForm.Renaming

/-!
# Clause forms of chains

A chain is a disjunction of `n` terms of two names each.  Its clause forms show how far apart the
two strategies are (`ofFormula_disjunctionChain`).

The distributive strategy joins each name of the first term with every clause of the rest, so each
term doubles the number of clauses and makes all of them longer by one literal
(`Converts.distributive_chain`).  The replacing strategy takes a new name to tell the first term
from the rest and adds only the two clauses of that term (`Converts.replacing_chain`).
-/

namespace Presence

namespace Formula

/-! ## Shape of chains -/

theorem isCompound_chainFrom (i more : Nat) : (chainFrom i more).isCompound = true := by
  cases more <;> rfl

theorem height_chainFrom (i more : Nat) : (chainFrom i more).height = more + 2 := by
  induction more generalizing i with
  | zero => rfl
  | succ more ih =>
      have hpair : (chainFrom.pair i).height = 2 := rfl
      rw [chainFrom, height, ih, hpair]
      omega

theorem containsConstants_chainFrom (i more : Nat) :
    (chainFrom i more).containsConstants = false := by
  induction more generalizing i with
  | zero => simp [chainFrom, chainFrom.pair]
  | succ more ih => simp [chainFrom, chainFrom.pair, ih]

end Formula

namespace ClauseForm

open Formula

variable {strategy : Strategy} {maxDepth i more n : Nat} {table : Option NameTable} {s : Supply}
  {names : List String} {form : ClauseForm}

/-! ## Derivations -/

namespace Converts

/-- A term has its two names as clauses. -/
theorem pair (h : Converts strategy s (chainFrom.pair i) names form) :
    names = [] ∧
      form = ⟨[atom ("A" ++ toString i), atom ("B" ++ toString i)], s⟩ := by
  obtain ⟨first, second, left, right, hl, hr, rfl, rfl⟩ := h.of_both rfl
  obtain ⟨rfl, rfl⟩ := hl.of_literal rfl
  obtain ⟨rfl, rfl⟩ := hr.of_literal rfl
  exact ⟨rfl, rfl⟩

/-- Each term doubles the clauses and makes them longer by a literal. -/
theorem distributive_chain (h : Converts .distributive s (chainFrom i more) names form) :
    form.clauses.length = 2 ^ (more + 1) ∧ ∀ c ∈ form.clauses, c.leafCount = more + 1 := by
  induction more generalizing i s names form with
  | zero =>
      obtain ⟨-, rfl⟩ := pair h
      simp
  | succ more ih =>
      obtain ⟨first, second, left, right, hl, hr, -, rfl⟩ := h.of_joined rfl (nomatch ·.1)
      obtain ⟨-, rfl⟩ := pair hl
      obtain ⟨hlength, hleaves⟩ := ih hr
      refine ⟨?_, fun c hc => ?_⟩
      · calc (distribute [atom _, atom _] right.clauses).length
            = 2 * right.clauses.length := length_distribute ..
          _ = 2 ^ (more + 1 + 1) := by rw [Nat.pow_succ', hlength]
      · obtain ⟨l, hl, r, hr, rfl⟩ := mem_distribute.1 hc
        have hliteral : l.leafCount = 1 := by
          rcases List.mem_pair.1 hl with rfl | rfl <;> exact leafCount_atom _
        rw [leafCount_disjunction, hliteral, hleaves r hr, Nat.add_comm]

/-- Each term but the last adds two clauses and takes a name. -/
theorem replacing_chain (h : Converts .replacing s (chainFrom i more) names form) :
    form.clauses.length = 2 * (more + 1) ∧ names.length = more := by
  induction more generalizing i s names form with
  | zero =>
      obtain ⟨rfl, rfl⟩ := pair h
      exact ⟨rfl, rfl⟩
  | succ more ih =>
      obtain ⟨first, second, left, right, hl, hr, rfl, rfl⟩ :=
        h.of_replaced rfl ⟨rfl, rfl, isCompound_chainFrom (i + 1) more⟩
      obtain ⟨rfl, rfl⟩ := pair hl
      obtain ⟨hlength, hnames⟩ := ih hr
      simp only [List.length_append, length_distribute, List.length_cons, List.length_nil, hlength,
        hnames]
      omega

end Converts

/-- A chain has no truth values, so its clause form is that of a derivation alone. -/
theorem exists_converts_chain (strategy : Strategy) (table : Option NameTable) (hn : 1 ≤ n)
    (hlimit : n ≤ maxDepth) :
    ∃ names form, ofFormula strategy maxDepth table (disjunctionChain n) = .ok form ∧
      Converts strategy (startSupply table (disjunctionChain n)) (disjunctionChain n) names form ∧
      form.supply.issued = names.reverse := by
  have hdepth : (disjunctionChain n).depth ≤ maxDepth + 1 := by
    rw [depth_eq_height, disjunctionChain, height_chainFrom]
    omega
  obtain ⟨form, hform⟩ := exists_ofFormula strategy table hdepth
  rcases ofFormula_cases hform with ⟨_, names, hconverts⟩ | ⟨hconstants, _⟩
  · refine ⟨names, form, hform, hconverts, ?_⟩
    rw [hconverts.draws.issued, startSupply, List.append_nil]
  · rw [disjunctionChain, containsConstants_chainFrom] at hconstants
    cases hconstants

/-- A chain of `n` terms is converted under every limit of at least `n`, whatever the table.

* With the distributive strategy it has `2 ^ n` clauses of `n` literals each, and no name is
  introduced.
* With the replacing strategy it has `2 * n` clauses over its own names and `n - 1` temporaries,
  which differ from each other and are new. -/
theorem ofFormula_disjunctionChain (table : Option NameTable) (hn : 1 ≤ n)
    (hlimit : n ≤ maxDepth) :
    (∃ form, ofFormula .distributive maxDepth table (disjunctionChain n) = .ok form ∧
      form.clauses.length = 2 ^ n ∧
      (∀ c ∈ form.clauses, c.isClause = true ∧ c.leafCount = n) ∧
      form.supply.issued = []) ∧
    ∃ form, ofFormula .replacing maxDepth table (disjunctionChain n) = .ok form ∧
      form.clauses.length = 2 * n ∧
      form.supply.issued.length = n - 1 ∧ form.supply.issued.Nodup ∧
      (∀ z ∈ form.supply.issued,
        (∃ k, z = Supply.temporary k) ∧ IsNew table (disjunctionChain n) z) ∧
      ∀ z, Mentions form.clauses z ↔ z ∈ (disjunctionChain n).atoms ∨ z ∈ form.supply.issued := by
  have hmore : n - 1 + 1 = n := Nat.sub_add_cancel hn
  constructor
  · obtain ⟨names, form, hform, hconverts, hissued⟩ :=
      exists_converts_chain .distributive table hn hlimit
    obtain ⟨hlength, hleaves⟩ := hconverts.distributive_chain
    rw [hmore] at hlength hleaves
    refine ⟨form, hform, hlength, fun c hc => ⟨ofFormula_isClause hform c hc, hleaves c hc⟩, ?_⟩
    rw [hissued, hconverts.names_eq_nil, List.reverse_nil]
  · obtain ⟨names, form, hform, hconverts, hissued⟩ :=
      exists_converts_chain .replacing table hn hlimit
    obtain ⟨hlength, hnames⟩ := hconverts.replacing_chain
    rw [hmore] at hlength
    have hnodup : form.supply.issued.Nodup := by
      rw [hissued]
      exact List.nodup_reverse.2 hconverts.draws.nodup
    refine ⟨form, hform, hlength, ?_, hnodup, fun z hz => ?_, ofFormula_mentions_iff hform⟩
    · rw [hissued, List.length_reverse, hnames]
    · rw [hissued, List.mem_reverse] at hz
      exact ⟨hconverts.exists_temporary z hz, isNew_iff.2 (hconverts.draws.new z hz)⟩

/-- A chain of three terms under the lowest limit, with a table that has the first temporary. -/
theorem ofFormula_disjunctionChain_example :
    (∃ form, ofFormula .distributive 3 (some (NameTable.empty.add "temp_0"))
        (disjunctionChain 3) = .ok form ∧ form.clauses.length = 8) ∧
      ∃ form, ofFormula .replacing 3 (some (NameTable.empty.add "temp_0"))
        (disjunctionChain 3) = .ok form ∧
        form.clauses.length = 6 ∧ form.supply.issued.length = 2 ∧
        "temp_0" ∉ form.supply.issued := by
  obtain ⟨⟨form, hform, hlength, -⟩, form', hform', hlength', hissued, -, hnew, -⟩ :=
    ofFormula_disjunctionChain (some (NameTable.empty.add "temp_0"))
      (by decide : 1 ≤ 3) (by decide : 3 ≤ 3)
  refine ⟨⟨form, hform, hlength⟩, form', hform', hlength', hissued, fun hmem => ?_⟩
  have hfree := (hnew _ hmem).2.2 _ rfl
  revert hfree
  decide +kernel

/-- The clauses of the chain `(A0 && B0) || (A1 && B1)` with a temporary. -/
example : (ofFormula .replacing 2 none (disjunctionChain 2)).toOption.map (·.clauses) =
    some [disjunction (negation (atom "temp_0")) (atom "A0"),
      disjunction (negation (atom "temp_0")) (atom "B0"),
      disjunction (atom "temp_0") (atom "A1"), disjunction (atom "temp_0") (atom "B1")] := by
  decide +kernel

end ClauseForm

end Presence
