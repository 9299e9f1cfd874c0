import Presence.Search
import Presence.Proofs.Cnf

/-!
# Correctness of the search

The search answers `true` exactly if some assignment makes all clauses hold
(`isSatisfiable_eq_true_iff`).  Splitting is right by itself.  Of the search that
learns nothing has to be known, since its findings are checked: a refutation is
made anew, and what it derives holds wherever the given clauses do.

So the search is an engine that answers correctly (`engine_answersCorrectly`).
-/

namespace Presence.Search

open Clause (AllHold allHold_append)

variable {v : Nat → Bool} {l : Literal} {c d : Clause} {cs : List Clause}

/-! ## Splitting -/

theorem shortest?_eq_none (h : shortest? cs = none) : cs = [] := by
  cases cs with
  | nil => rfl
  | cons c cs =>
      rw [shortest?] at h
      split at h
      · split at h <;> cases h
      · cases h

/-- The assignment changed so that the literal holds. -/
def enforce (l : Literal) (v : Nat → Bool) : Nat → Bool := Function.update v l.number l.positive

theorem holds_enforce_self (l : Literal) (v : Nat → Bool) : l.holds (enforce l v) = true := by
  rw [Literal.holds, enforce, Function.update_self, beq_self_eq_true]

theorem holds_enforce {k : Literal} (hkl : k ≠ l) (hk : k ≠ l.negate) (v : Nat → Bool) :
    k.holds (enforce l v) = k.holds v := by
  have hne : k.number ≠ l.number := fun heq => (Literal.eq_or_eq_negate heq).elim hkl hk
  rw [Literal.holds, Literal.holds, enforce, Function.update_of_ne hne]

/-- What is left to hold under an assumption suffices once the assumption is enforced. -/
theorem allHold_enforce (h : AllHold v (assume l cs)) : AllHold (enforce l v) cs := by
  intro c hc
  rw [Clause.holds_iff]
  by_cases hl : l ∈ c
  · exact ⟨l, hl, holds_enforce_self l v⟩
  · have hmem : (c.filter fun k => k != l.negate) ∈ assume l cs := by
      refine List.mem_map_of_mem (List.mem_filter.2 ⟨hc, ?_⟩)
      simpa using hl
    obtain ⟨k, hk, hholds⟩ := Clause.holds_iff.1 (h _ hmem)
    rw [List.mem_filter, bne_iff_ne] at hk
    refine ⟨k, hk.1, ?_⟩
    rw [holds_enforce ?_ hk.2]
    · exact hholds
    · rintro rfl
      exact hl hk.1

/-- Under an assumption that holds, removing its negation changes nothing. -/
theorem allHold_assume (hl : l.holds v = true) (h : AllHold v cs) : AllHold v (assume l cs) := by
  intro c hc
  obtain ⟨d, hd, rfl⟩ := List.mem_map.1 hc
  obtain ⟨k, hk, hholds⟩ := Clause.holds_iff.1 (h d (List.mem_filter.1 hd).1)
  refine Clause.holds_iff.2 ⟨k, List.mem_filter.2 ⟨hk, bne_iff_ne.2 ?_⟩, hholds⟩
  rintro rfl
  rw [Literal.holds_negate, hl] at hholds
  cases hholds

/-- Splitting is right. -/
theorem splits_eq_true_iff (cs : List Clause) : splits cs = true ↔ ∃ v, AllHold v cs := by
  fun_induction splits cs with
  | case1 cs found =>
      rw [shortest?_eq_none found]
      exact iff_of_true rfl ⟨fun _ => false, List.forall_mem_nil _⟩
  | case2 cs found =>
      refine iff_of_false Bool.false_ne_true fun ⟨v, h⟩ => ?_
      exact Clause.not_holds_nil (h [] (shortest?_mem found))
  | case3 cs l _ _ ihPositive ihNegative =>
      rw [Bool.or_eq_true, ihPositive, ihNegative]
      constructor
      · rintro (⟨v, h⟩ | ⟨v, h⟩)
        · exact ⟨enforce l v, allHold_enforce h⟩
        · exact ⟨enforce l.negate v, allHold_enforce h⟩
      · rintro ⟨v, h⟩
        cases hl : l.holds v with
        | true => exact Or.inl ⟨v, allHold_assume hl h⟩
        | false =>
            have hnegate : l.negate.holds v = true := by
              rw [Literal.holds_negate, hl, Bool.not_false]
            exact Or.inr ⟨v, allHold_assume hnegate h⟩

/-! ## Refutations -/

theorem mem_union : l ∈ union c d ↔ l ∈ c ∨ l ∈ d := by
  fun_induction union c d with
  | case1 ds => simp
  | case2 cs _ => simp
  | case3 c cs d ds _ ih => simp only [List.mem_cons, ih, or_assoc]
  | case4 c cs d ds _ _ ih => simp only [List.mem_cons, ih, or_left_comm]
  | case5 c cs ds _ _ ih =>
      simp only [List.mem_cons, ih]
      rw [or_or_distrib_left]
  | case6 c cs d ds _ _ _ ih => simp only [List.mem_cons, ih, or_assoc, or_left_comm]

/-- A resolvent holds wherever the two clauses do. -/
theorem holds_resolve (hc : c.holds v = true) (hd : d.holds v = true) :
    (resolve l c d).holds v = true := by
  obtain ⟨j, hj, hjholds⟩ := Clause.holds_iff.1 hc
  obtain ⟨k, hk, hkholds⟩ := Clause.holds_iff.1 hd
  by_cases hjl : j = l
  · refine Clause.holds_iff.2 ⟨k, mem_union.2 (Or.inr (List.mem_filter.2 ⟨hk, ?_⟩)), hkholds⟩
    rw [bne_iff_ne]
    rintro rfl
    rw [Literal.holds_negate, ← hjl, hjholds] at hkholds
    cases hkholds
  · exact Clause.holds_iff.2
      ⟨j, mem_union.2 (Or.inl (List.mem_filter.2 ⟨hj, bne_iff_ne.2 hjl⟩)), hjholds⟩

variable {known known' : Array Clause}

/-- Resolving with known clauses that hold preserves that a clause holds. -/
theorem holds_of_steps (hknown : ∀ c ∈ known, c.holds v = true) {steps : List (Literal × Nat)}
    (hc : c.holds v = true)
    (h : steps.foldlM (fun c (l, place) => (known[place]?).map (resolve l c)) c = some d) :
    d.holds v = true := by
  induction steps generalizing c with
  | nil =>
      cases h
      exact hc
  | cons step steps ih =>
      obtain ⟨next, hnext, h⟩ := Option.bind_eq_some_iff.1 h
      obtain ⟨k, hk, rfl⟩ := Option.map_eq_some_iff.1 hnext
      exact ih (holds_resolve hc (hknown k (Array.mem_of_getElem? hk))) h

/-- A derived clause holds wherever the known ones do. -/
theorem holds_of_clause? {derivation : Derivation} (hknown : ∀ c ∈ known, c.holds v = true)
    (h : derivation.clause? known = some c) : c.holds v = true := by
  obtain ⟨first, hfirst, h⟩ := Option.bind_eq_some_iff.1 h
  exact holds_of_steps hknown (hknown first (Array.mem_of_getElem? hfirst)) h

/-- Derivations preserve that all known clauses hold. -/
theorem holds_of_derive? {ds : List Derivation} (hknown : ∀ c ∈ known, c.holds v = true)
    (h : derive? known ds = some known') : ∀ c ∈ known', c.holds v = true := by
  induction ds generalizing known with
  | nil =>
      cases h
      exact hknown
  | cons d ds ih =>
      rw [derive?] at h
      split at h
      next c hc =>
        refine ih (fun e he => ?_) h
        rcases Array.mem_push.1 he with he | rfl
        · exact hknown e he
        · exact holds_of_clause? hknown hc
      next => cases h

/-- Clauses with a refutation cannot all hold. -/
theorem not_allHold_of_refutes {ds : List Derivation} (h : refutes cs ds = true) :
    ¬AllHold v cs := by
  intro hall
  rw [refutes] at h
  split at h
  next known hderive =>
    have hknown := holds_of_derive? (v := v) ?_ hderive
    · exact Clause.not_holds_nil (hknown [] (Array.mem_of_back? (beq_iff_eq.1 h)))
    -- Sorting a clause does not change whether it holds.
    · intro c hc
      rw [List.mem_toArray, List.mem_map] at hc
      obtain ⟨d, hd, rfl⟩ := hc
      obtain ⟨l, hl, hholds⟩ := Clause.holds_iff.1 (hall d hd)
      exact Clause.holds_iff.2 ⟨l, List.mem_mergeSort.2 hl, hholds⟩
  next => cases h

/-! ## The search -/

/-- A finding that passes its check is right. -/
theorem verdict?_eq_some {finding : Finding} {b : Bool} (h : finding.verdict? cs = some b) :
    b = true ↔ ∃ v, AllHold v cs := by
  cases finding with
  | assignment values =>
      rw [Finding.verdict?] at h
      split at h
      next hholds =>
        cases h
        exact iff_of_true rfl ⟨_, List.all_eq_true.1 hholds⟩
      next => cases h
  | refutation ds =>
      rw [Finding.verdict?] at h
      split at h
      next hrefutes =>
        cases h
        exact iff_of_false Bool.false_ne_true fun ⟨v, hv⟩ => not_allHold_of_refutes hrefutes hv
      next => cases h
  | nothing => cases h

/-- The search answers `true` exactly if all clauses can hold. -/
theorem isSatisfiable_eq_true_iff (cs : List Clause) :
    isSatisfiable cs = true ↔ ∃ v, AllHold v cs := by
  rw [isSatisfiable]
  split
  · exact splits_eq_true_iff cs
  · cases h : (find patience cs).verdict? cs with
    | none => exact splits_eq_true_iff cs
    | some b => exact verdict?_eq_some h

theorem engine_answersCorrectly : engine.AnswersCorrectly where
  answers _ := ⟨_, rfl⟩
  isRight := by
    intro forms b h
    cases h
    rw [isSatisfiable_eq_true_iff]
    refine exists_congr fun v => ?_
    simp only [AllHold, List.mem_flatMap, Cnf.holds, List.all_eq_true]
    exact ⟨fun hall f hf c hc => hall c ⟨f, hf, hc⟩, fun hall c ⟨f, hf, hc⟩ => hall f hf c hc⟩

end Presence.Search
