import Mathlib.Logic.Equiv.Basic
import Presence.Proofs.ClauseForm.Growth
import Presence.Proofs.ClauseForm.Limits

/-!
# Clause forms up to renaming

A conversion asks its supply for new names and for nothing else.  So two conversions of a formula
go through the same steps whatever their supplies are.  They draw as many names, and the clauses
of one are those of the other with the drawn names in place of each other (`Converts.rename`).

That the names differ at all is due to names of the table that are temporaries.  Supplies that
agree on which temporaries are in use hand out the same names (`Supply.Agrees`), and so a table
without temporaries does not show in the clauses (`ofFormula_renames`).
-/

namespace Presence

/-! ## Renaming -/

/-- A one-to-one renaming takes one row of distinct names to another and leaves all other names
alone. -/
theorem exists_perm_map_eq {α : Type} [DecidableEq α] {xs ys : List α} (hx : xs.Nodup)
    (hy : ys.Nodup) (hlength : ys.length = xs.length) :
    ∃ σ : Equiv.Perm α, xs.map σ = ys ∧ ∀ a, a ∉ xs → a ∉ ys → σ a = a := by
  induction xs generalizing ys with
  | nil =>
      rw [List.length_nil, List.length_eq_zero_iff] at hlength
      subst hlength
      exact ⟨Equiv.refl α, rfl, fun a _ _ => rfl⟩
  | cons x xs ih =>
      cases ys with
      | nil => cases hlength
      | cons y ys =>
          rw [List.nodup_cons] at hx hy
          obtain ⟨σ, hmap, hfixes⟩ := ih hx.2 hy.2 (Nat.succ.inj hlength)
          -- What the renaming of the tails makes of `x` changes places with `y`.
          refine ⟨σ.trans (Equiv.swap (σ x) y), ?_, fun a hax hay => ?_⟩
          · rw [List.map_cons, Equiv.trans_apply, Equiv.swap_apply_left, ← hmap]
            refine congrArg (y :: ·) (List.map_congr_left fun a ha => ?_)
            have hax : σ a ≠ σ x := σ.injective.ne (ne_of_mem_of_not_mem ha hx.1)
            have hay : σ a ≠ y := by
              rintro rfl
              exact hy.1 (hmap ▸ List.mem_map_of_mem ha)
            rw [Equiv.trans_apply, Equiv.swap_apply_of_ne_of_ne hax hay]
          · rw [List.mem_cons, not_or] at hax hay
            have hfixed := hfixes a hax.2 hay.2
            have hne : a ≠ σ x := by
              rw [← hfixed]
              exact σ.injective.ne hax.1
            rw [Equiv.trans_apply, hfixed, Equiv.swap_apply_of_ne_of_ne hne hay.1]

namespace Formula

/-- The formula with other names at its atoms. -/
def rename (ρ : String → String) : Formula → Formula
  | constant value => constant value
  | atom name => atom (ρ name)
  | negation f => negation (f.rename ρ)
  | conjunction l r => conjunction (l.rename ρ) (r.rename ρ)
  | disjunction l r => disjunction (l.rename ρ) (r.rename ρ)

theorem rename_eq_self {ρ : String → String} {f : Formula} (h : ∀ n ∈ f.atoms, ρ n = n) :
    f.rename ρ = f := by
  induction f with
  | constant value => rfl
  | atom name => rw [rename, h name (List.mem_singleton_self _)]
  | negation f ih => rw [rename, ih h]
  | conjunction l r ihl ihr | disjunction l r ihl ihr =>
      rw [atoms, List.forall_mem_append] at h
      rw [rename, ihl h.1, ihr h.2]

theorem withoutConstants_eq_self {f : Formula} (h : f.containsConstants = false) :
    f.withoutConstants = f := by
  induction f with
  | constant value =>
      rw [containsConstants_constant] at h
      cases h
  | atom name => rfl
  | negation f ih =>
      rw [containsConstants_negation] at h
      rw [withoutConstants, ih h]
  | conjunction l r ihl ihr =>
      rw [containsConstants_conjunction, Bool.or_eq_false_iff] at h
      rw [withoutConstants, ihl h.1, ihr h.2]
  | disjunction l r ihl ihr =>
      rw [containsConstants_disjunction, Bool.or_eq_false_iff] at h
      rw [withoutConstants, ihl h.1, ihr h.2]

end Formula

/-! ## Supplies that agree -/

namespace Supply

variable {s s' : Supply} {k : Nat}

/-- The next temporary is the first that is not in use. -/
theorem unusedNumber_eq (hle : s.next ≤ k)
    (hpassed : ∀ j, s.next ≤ j → j < k → s.isUsed (temporary j) = true)
    (hk : s.isUsed (temporary k) = false) : s.unusedNumber = k := by
  obtain ⟨hstart, _, hbefore, _⟩ :=
    firstUnused_spec (fun k => s.isUsed (temporary k)) s.usedCount s.next
  rw [← unusedNumber] at hstart hbefore
  have hunused := isUsed_unusedNumber s
  rcases Nat.lt_trichotomy s.unusedNumber k with hlt | heq | hlt
  · rw [hpassed _ hstart hlt] at hunused
    cases hunused
  · exact heq
  · have hused := hbefore k hle hlt
    rw [hk] at hused
    cases hused

/-- The same temporaries have been tried, and of all temporaries the same are in use. -/
structure Agrees (s s' : Supply) : Prop where
  next : s.next = s'.next
  isUsed : ∀ k, s.isUsed (temporary k) = s'.isUsed (temporary k)

namespace Agrees

theorem unusedNumber_eq (h : s.Agrees s') : s.unusedNumber = s'.unusedNumber := by
  obtain ⟨hstart, _, hbefore, _⟩ :=
    firstUnused_spec (fun k => s'.isUsed (temporary k)) s'.usedCount s'.next
  rw [← unusedNumber] at hstart hbefore
  refine Supply.unusedNumber_eq (h.next ▸ hstart) (fun j hj hlt => ?_) ?_
  · rw [h.isUsed]
    exact hbefore j (h.next ▸ hj) hlt
  · rw [h.isUsed]
    exact isUsed_unusedNumber s'

theorem fresh (h : s.Agrees s') : s.fresh.1 = s'.fresh.1 ∧ s.fresh.2.Agrees s'.fresh.2 := by
  have hname : s.fresh.1 = s'.fresh.1 := congrArg temporary h.unusedNumber_eq
  refine ⟨hname, congrArg (· + 1) h.unusedNumber_eq, fun k => ?_⟩
  rw [Bool.eq_iff_iff, (Draws.fresh s).used, (Draws.fresh s').used, hname, h.isUsed]

end Agrees

end Supply

namespace ClauseForm

open Formula

variable {strategy : Strategy} {maxDepth : Nat} {table : Option NameTable} {s s' : Supply}
  {f : Formula} {names names' : List String} {form form' : ClauseForm} {n : String}

/-! ## Derivations side by side -/

namespace Converts

variable {g l r : Formula}

/-! The formula says what the last step of a derivation is. -/

theorem of_literal (h : Converts strategy s f names form) (shape : f.outermost = .literal) :
    names = [] ∧ form = ⟨[f], s⟩ := by
  cases h with
  | literal => exact ⟨rfl, rfl⟩
  | doubleNegation shape' | both shape' | replaced shape' | joined shape' =>
      cases shape.symm.trans shape'

theorem of_doubleNegation (h : Converts strategy s f names form)
    (shape : f.outermost = .doubleNegation g) : Converts strategy s g names form := by
  cases h with
  | doubleNegation shape' inner =>
      cases shape.symm.trans shape'
      exact inner
  | literal shape' | both shape' | replaced shape' | joined shape' =>
      cases shape.symm.trans shape'

theorem of_both (h : Converts strategy s f names form) (shape : f.outermost = .both l r) :
    ∃ first second left right, Converts strategy s l first left ∧
      Converts strategy left.supply r second right ∧ names = first ++ second ∧
      form = ⟨left.clauses ++ right.clauses, right.supply⟩ := by
  cases h with
  | both shape' hl hr =>
      cases shape.symm.trans shape'
      exact ⟨_, _, _, _, hl, hr, rfl, rfl⟩
  | literal shape' | doubleNegation shape' | replaced shape' | joined shape' =>
      cases shape.symm.trans shape'

theorem of_replaced (h : Converts strategy s f names form) (shape : f.outermost = .either l r)
    (isReplaced : IsReplaced strategy l r) :
    ∃ first second left right, Converts strategy s.fresh.2 l first left ∧
      Converts strategy left.supply r second right ∧ names = s.fresh.1 :: (first ++ second) ∧
      form = ⟨distribute [negation (atom s.fresh.1)] left.clauses ++
        distribute [atom s.fresh.1] right.clauses, right.supply⟩ := by
  cases h with
  | replaced shape' _ hl hr =>
      cases shape.symm.trans shape'
      exact ⟨_, _, _, _, hl, hr, rfl, rfl⟩
  | joined shape' notReplaced =>
      cases shape.symm.trans shape'
      exact absurd isReplaced notReplaced
  | literal shape' | doubleNegation shape' | both shape' => cases shape.symm.trans shape'

theorem of_joined (h : Converts strategy s f names form) (shape : f.outermost = .either l r)
    (notReplaced : ¬IsReplaced strategy l r) :
    ∃ first second left right, Converts strategy s l first left ∧
      Converts strategy left.supply r second right ∧ names = first ++ second ∧
      form = ⟨distribute left.clauses right.clauses, right.supply⟩ := by
  cases h with
  | replaced shape' isReplaced =>
      cases shape.symm.trans shape'
      exact absurd isReplaced notReplaced
  | joined shape' _ hl hr =>
      cases shape.symm.trans shape'
      exact ⟨_, _, _, _, hl, hr, rfl, rfl⟩
  | literal shape' | doubleNegation shape' | both shape' => cases shape.symm.trans shape'

end Converts

/-- Rows that are taken to each other as a whole and begin with parts of one length are taken to
each other part by part. -/
theorem map_append_inj {ρ : String → String} {first second first' second' : List String}
    (hlength : first'.length = first.length)
    (h : (first ++ second).map ρ = first' ++ second') :
    first.map ρ = first' ∧ second.map ρ = second' := by
  rw [List.map_append] at h
  exact List.append_inj h (by rw [List.length_map, hlength])

theorem map_rename_distribute (ρ : String → String) (left right : List Formula) :
    (distribute left right).map (rename ρ) =
      distribute (left.map (rename ρ)) (right.map (rename ρ)) := by
  simp only [distribute, List.map_flatMap, List.flatMap_map, List.map_map]
  rfl

/-- Two derivations draw as many names.  A renaming that keeps the names of the formula and takes
the drawn names to each other takes the clauses to each other. -/
theorem Converts.rename (h : Converts strategy s f names form)
    (h' : Converts strategy s' f names' form') :
    names'.length = names.length ∧ ∀ ρ : String → String, (∀ n ∈ f.atoms, ρ n = n) →
      names.map ρ = names' → form'.clauses = form.clauses.map (Formula.rename ρ) := by
  induction h generalizing s' names' form' with
  | literal shape =>
      obtain ⟨rfl, rfl⟩ := h'.of_literal shape
      refine ⟨rfl, fun ρ hatoms _ => ?_⟩
      rw [List.map_singleton, rename_eq_self hatoms]
  | doubleNegation shape _ ih =>
      rw [outermost_doubleNegation shape]
      exact ih (h'.of_doubleNegation shape)
  | both shape _ _ ihl ihr =>
      obtain ⟨_, _, _, _, hl, hr, rfl, rfl⟩ := h'.of_both shape
      obtain ⟨hlengthl, hrenamel⟩ := ihl hl
      obtain ⟨hlengthr, hrenamer⟩ := ihr hr
      refine ⟨by rw [List.length_append, List.length_append, hlengthl, hlengthr],
        fun ρ hatoms hnames => ?_⟩
      rw [atoms_of_both shape, List.forall_mem_append] at hatoms
      obtain ⟨hnamesl, hnamesr⟩ := map_append_inj hlengthl hnames
      rw [List.map_append, hrenamel ρ hatoms.1 hnamesl, hrenamer ρ hatoms.2 hnamesr]
  | replaced shape isReplaced _ _ ihl ihr =>
      obtain ⟨_, _, _, _, hl, hr, rfl, rfl⟩ := h'.of_replaced shape isReplaced
      obtain ⟨hlengthl, hrenamel⟩ := ihl hl
      obtain ⟨hlengthr, hrenamer⟩ := ihr hr
      refine ⟨by simp only [List.length_cons, List.length_append, hlengthl, hlengthr],
        fun ρ hatoms hnames => ?_⟩
      rw [atoms_of_either shape, List.forall_mem_append] at hatoms
      rw [List.map_cons, List.cons.injEq] at hnames
      obtain ⟨hname, hnames⟩ := hnames
      obtain ⟨hnamesl, hnamesr⟩ := map_append_inj hlengthl hnames
      rw [List.map_append, map_rename_distribute, map_rename_distribute,
        hrenamel ρ hatoms.1 hnamesl, hrenamer ρ hatoms.2 hnamesr, ← hname]
      rfl
  | joined shape notReplaced _ _ ihl ihr =>
      obtain ⟨_, _, _, _, hl, hr, rfl, rfl⟩ := h'.of_joined shape notReplaced
      obtain ⟨hlengthl, hrenamel⟩ := ihl hl
      obtain ⟨hlengthr, hrenamer⟩ := ihr hr
      refine ⟨by rw [List.length_append, List.length_append, hlengthl, hlengthr],
        fun ρ hatoms hnames => ?_⟩
      rw [atoms_of_either shape, List.forall_mem_append] at hatoms
      obtain ⟨hnamesl, hnamesr⟩ := map_append_inj hlengthl hnames
      rw [map_rename_distribute, hrenamel ρ hatoms.1 hnamesl, hrenamer ρ hatoms.2 hnamesr]

/-- All drawn names are temporaries. -/
theorem Converts.exists_temporary (h : Converts strategy s f names form) :
    ∀ n ∈ names, ∃ k, n = Supply.temporary k := by
  induction h with
  | literal => exact List.forall_mem_nil _
  | doubleNegation _ _ ih => exact ih
  | both _ _ _ ihl ihr | joined _ _ _ _ ihl ihr => exact List.forall_mem_append.2 ⟨ihl, ihr⟩
  | @replaced s _ _ _ _ _ _ _ _ _ _ _ ihl ihr =>
      exact List.forall_mem_cons.2 ⟨⟨s.unusedNumber, rfl⟩, List.forall_mem_append.2 ⟨ihl, ihr⟩⟩

/-- Supplies that agree hand out the same names and agree after that. -/
theorem Converts.names_eq (h : Converts strategy s f names form)
    (h' : Converts strategy s' f names' form') (hagrees : s.Agrees s') :
    names' = names ∧ form.supply.Agrees form'.supply := by
  induction h generalizing s' names' form' with
  | literal shape =>
      obtain ⟨rfl, rfl⟩ := h'.of_literal shape
      exact ⟨rfl, hagrees⟩
  | doubleNegation shape _ ih =>
      exact ih (h'.of_doubleNegation shape) hagrees
  | both shape _ _ ihl ihr =>
      obtain ⟨_, _, _, _, hl, hr, rfl, rfl⟩ := h'.of_both shape
      obtain ⟨hnamesl, hagreesl⟩ := ihl hl hagrees
      obtain ⟨hnamesr, hagreesr⟩ := ihr hr hagreesl
      exact ⟨by rw [hnamesl, hnamesr], hagreesr⟩
  | replaced shape isReplaced _ _ ihl ihr =>
      obtain ⟨_, _, _, _, hl, hr, rfl, rfl⟩ := h'.of_replaced shape isReplaced
      obtain ⟨hname, hfresh⟩ := hagrees.fresh
      obtain ⟨hnamesl, hagreesl⟩ := ihl hl hfresh
      obtain ⟨hnamesr, hagreesr⟩ := ihr hr hagreesl
      exact ⟨by rw [hname, hnamesl, hnamesr], hagreesr⟩
  | joined shape notReplaced _ _ ihl ihr =>
      obtain ⟨_, _, _, _, hl, hr, rfl, rfl⟩ := h'.of_joined shape notReplaced
      obtain ⟨hnamesl, hagreesl⟩ := ihl hl hagrees
      obtain ⟨hnamesr, hagreesr⟩ := ihr hr hagreesl
      exact ⟨by rw [hnamesl, hnamesr], hagreesr⟩

/-! ## Whole formulas -/

/-- The supply once the atoms for truth values are handed out, if the formula has any. -/
def readySupply (table : Option NameTable) (f : Formula) : Supply :=
  if f.containsConstants then pseudoSupply table f else startSupply table f

theorem isUsed_readySupply :
    (readySupply table f).isUsed n = true ↔
      n ∈ pseudoNames f ∨ n ∈ f.atoms ∨ ∃ t, table = some t ∧ t.contains n = true := by
  rw [readySupply, pseudoNames]
  cases f.containsConstants with
  | false => simp [isUsed_startSupply]
  | true => simp [isUsed_pseudoSupply, or_assoc]

theorem issued_readySupply (table : Option NameTable) (f : Formula) :
    (readySupply table f).issued = pseudoNames f := by
  rw [readySupply, pseudoNames]
  cases f.containsConstants <;> rfl

/-- A clause form has the clauses for truth values and then those of a derivation. -/
theorem exists_converts (h : ofFormula strategy maxDepth table f = .ok form) :
    ∃ names inner, Converts strategy (readySupply table f) f.withoutConstants names inner ∧
      form = ⟨pseudoClauses f ++ inner.clauses, inner.supply⟩ := by
  rcases ofFormula_cases h with ⟨hconstants, names, hconverts⟩ |
    ⟨hconstants, names, inner, hconverts, rfl⟩
  · refine ⟨names, form, ?_, by simp [pseudoClauses, hconstants]⟩
    rw [withoutConstants_eq_self hconstants]
    simpa [readySupply, hconstants] using hconverts
  · exact ⟨names, inner, by simpa [readySupply, hconstants] using hconverts,
      by simp [pseudoClauses, hconstants]⟩

theorem isUsed_readySupply_of_mem (hn : n ∈ f.withoutConstants.atoms) :
    (readySupply table f).isUsed n = true := by
  rw [readySupply]
  cases hconstants : f.containsConstants with
  | false =>
      rw [withoutConstants_eq_self hconstants] at hn
      exact isUsed_startSupply.2 (Or.inl hn)
  | true => exact isUsed_of_withoutConstants hn

/-- A renaming that leaves the names in use alone does not change the clauses for truth values. -/
theorem map_rename_pseudoClauses {ρ : String → String} (hρ : ∀ n ∈ pseudoNames f, ρ n = n) :
    (pseudoClauses f).map (Formula.rename ρ) = pseudoClauses f := by
  rw [pseudoNames] at hρ
  rw [pseudoClauses]
  cases hconstants : f.containsConstants with
  | false => rfl
  | true =>
      rw [hconstants, if_pos rfl, List.forall_mem_cons, List.forall_mem_singleton] at hρ
      rw [if_pos rfl, List.map_cons, List.map_singleton, Formula.rename, Formula.rename,
        Formula.rename, hρ.1, hρ.2]

variable {t : NameTable}

/-- What is in use without the table is in use with it. -/
theorem isUsed_readySupply_some (hn : (readySupply none f).isUsed n = true) :
    (readySupply (some t) f).isUsed n = true := by
  rw [isUsed_readySupply] at hn ⊢
  rcases hn with hpseudo | hatom | ⟨_, ht, _⟩
  · exact Or.inl hpseudo
  · exact Or.inr (Or.inl hatom)
  · cases ht

/-- A table without temporaries has no part in the names that are handed out. -/
theorem agrees_readySupply (hfree : ∀ k, t.contains (Supply.temporary k) = false) :
    (readySupply none f).Agrees (readySupply (some t) f) where
  next := by
    rw [readySupply, readySupply]
    cases f.containsConstants <;> rfl
  isUsed := by
    intro k
    rw [Bool.eq_iff_iff, isUsed_readySupply, isUsed_readySupply]
    simp [hfree k]

theorem clauses_eq_of_no_temporaries (hform : ofFormula strategy maxDepth none f = .ok form)
    (hform' : ofFormula strategy maxDepth (some t) f = .ok form')
    (hfree : ∀ k, t.contains (Supply.temporary k) = false) : form'.clauses = form.clauses := by
  obtain ⟨names, inner, hconverts, rfl⟩ := exists_converts hform
  obtain ⟨names', inner', hconverts', rfl⟩ := exists_converts hform'
  obtain ⟨rfl, _⟩ := hconverts.names_eq hconverts' (agrees_readySupply hfree)
  have hsame := (hconverts.rename hconverts').2 id (fun _ _ => rfl) (List.map_id _)
  have hid : inner.clauses.map (Formula.rename id) = inner.clauses :=
    List.map_id'' (fun c => rename_eq_self fun _ _ => rfl) _
  simp only [hsame, hid]

/-- Whether a formula has a clause form does not depend on the table.  If it has one then a
one-to-one renaming takes the clauses without a table to those with it.  It takes the temporaries
of the one conversion to those of the other, in order, and all other names stay as they are, among
them those of the clauses.  If no temporary is in the table the clauses are the same. -/
theorem ofFormula_renames (strategy : Strategy) (maxDepth : Nat) (t : NameTable) (f : Formula) :
    (∃ cause, ofFormula strategy maxDepth none f = .error cause ∧
      ofFormula strategy maxDepth (some t) f = .error cause) ∨
    ∃ (form form' : ClauseForm) (names names' : List String) (ρ : String → String),
      ofFormula strategy maxDepth none f = .ok form ∧
      ofFormula strategy maxDepth (some t) f = .ok form' ∧
      form.supply.issued = names.reverse ++ pseudoNames f ∧
      form'.supply.issued = names'.reverse ++ pseudoNames f ∧
      (∀ n ∈ names ++ names', ∃ k, n = Supply.temporary k) ∧
      Function.Injective ρ ∧ names' = names.map ρ ∧
      (∀ n, n ∉ names → n ∉ names' → ρ n = n) ∧
      (∀ n, Mentions form.clauses n → n ∉ names → ρ n = n) ∧
      form'.clauses = form.clauses.map (Formula.rename ρ) ∧
      ((∀ k, t.contains (Supply.temporary k) = false) → form'.clauses = form.clauses) := by
  rcases Nat.lt_or_ge (maxDepth + 1) f.depth with hdepth | hdepth
  · exact Or.inl ⟨.tooDeep maxDepth, ofFormula_eq_error_iff.2 ⟨hdepth, rfl⟩,
      ofFormula_eq_error_iff.2 ⟨hdepth, rfl⟩⟩
  · obtain ⟨form, hform⟩ := exists_ofFormula strategy none hdepth
    obtain ⟨form', hform'⟩ := exists_ofFormula strategy (some t) hdepth
    have hfree := clauses_eq_of_no_temporaries hform hform'
    have hmentions := ofFormula_mentions_iff hform
    obtain ⟨names, inner, hconverts, rfl⟩ := exists_converts hform
    obtain ⟨names', inner', hconverts', rfl⟩ := exists_converts hform'
    obtain ⟨hlength, hrename⟩ := hconverts.rename hconverts'
    obtain ⟨σ, hmap, hfixes⟩ :=
      exists_perm_map_eq hconverts.draws.nodup hconverts'.draws.nodup hlength
    have hissued := hconverts.draws.issued
    have hissued' := hconverts'.draws.issued
    rw [issued_readySupply] at hissued hissued'
    -- Names in use are not drawn.
    have hused : ∀ n, (readySupply none f).isUsed n = true → σ n = n := fun n hn =>
      hfixes n (hconverts.draws.not_mem hn) (hconverts'.draws.not_mem (isUsed_readySupply_some hn))
    have hpseudo : ∀ n ∈ pseudoNames f, σ n = n := fun n hn =>
      hused n (isUsed_readySupply.2 (Or.inl hn))
    refine Or.inr ⟨_, _, names, names', σ, hform, hform', hissued, hissued',
      List.forall_mem_append.2 ⟨hconverts.exists_temporary, hconverts'.exists_temporary⟩,
      σ.injective, hmap.symm, hfixes, fun n hn hnames => ?_, ?_, hfree⟩
    · rw [hmentions, hissued, List.mem_append, List.mem_reverse, or_iff_right hnames] at hn
      rcases hn with hatom | hpseudoName
      · exact hused n (isUsed_readySupply.2 (Or.inr (Or.inl hatom)))
      · exact hpseudo n hpseudoName
    · rw [List.map_append, map_rename_pseudoClauses hpseudo,
        hrename σ (fun n hn => hused n (isUsed_readySupply_of_mem hn)) hmap]

/-- A table with the first temporary is given the second in its place. -/
example :
    (ofFormula .replacing 2 (some (({} : NameTable).add "temp_0")) (disjunction
        (conjunction (atom "a") (atom "b")) (conjunction (atom "c") (atom "d")))).map
      (·.supply.issued) = .ok ["temp_1"] := by decide +kernel

end ClauseForm

end Presence
