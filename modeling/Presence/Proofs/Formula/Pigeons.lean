import Presence.Formula.Family
import Presence.Proofs.Text.Fields
import Std.Data.String.ToNat
import Mathlib.Data.Fin.Pigeonhole
import Mathlib.Data.List.Basic

/-!
# Pigeons and holes

The pigeonhole formula holds under some assignment exactly if there are no more pigeons than
holes (`satisfiable_pigeonhole_iff`).

Joining neighbours keeps what a row of formulas says together, also if the last one has no
partner (`all_joinPairs`).  So whatever the number of rounds is, the formula holds exactly where all
its conditions do (`eval_conjoin`).  The conditions speak of one symbol for each pigeon and each hole,
and no two of these have the same name (`seat_inj`).  An assignment under which the conditions
hold is thus a seating, in which every pigeon has a hole and no two have the same
(`eval_pigeonhole_iff`).

Holes that are chosen from a seating are different for different pigeons, so there are as many of
them as pigeons (`IsSeating.le`).  Conversely each pigeon can sit in the hole of its own number
(`isSeating_inOrder`).
-/

namespace Presence.Formula

variable {value : String → Bool} {pigeons holes p q h k : Nat}

/-! ## Joining -/

theorem all_joinPairs (value : String → Bool) (fs : List Formula) :
    (joinPairs fs).all (eval value) = fs.all (eval value) := by
  fun_induction joinPairs fs with
  | case1 l r rest ih =>
      rw [List.all_cons, List.all_cons, List.all_cons, ih, eval, Bool.and_assoc]
  | case2 rest => rfl

/-- The conjunction holds where all its formulas do. -/
theorem eval_conjoin (value : String → Bool) (fs : List Formula) :
    (conjoin fs).eval value = fs.all (eval value) := by
  fun_induction conjoin fs with
  | case1 => rfl
  | case2 f => rw [List.all_cons, List.all_nil, Bool.and_true]
  | case3 l r rest ih => rw [ih, all_joinPairs]

theorem eval_foldl_disjunction (value : String → Bool) (g : Nat → Formula) (f : Formula)
    (ks : List Nat) :
    (ks.foldl (fun f k => disjunction f (g k)) f).eval value = true ↔
      f.eval value = true ∨ ∃ k ∈ ks, (g k).eval value = true := by
  induction ks generalizing f with
  | nil => simp
  | cons k ks ih =>
      rw [List.foldl_cons, ih, eval, Bool.or_eq_true, or_assoc, List.exists_mem_cons_iff]

/-! ## Symbols -/

/-- The name of the symbol that the pigeon sits in the hole. -/
def seat (pigeon hole : Nat) : String := "P" ++ toString pigeon ++ "H" ++ toString hole

theorem eval_sits (value : String → Bool) (pigeon hole : Nat) :
    (sits pigeon hole).eval value = value (seat pigeon hole) := rfl

theorem not_mem_toString (n : Nat) : 'H' ∉ (toString n).toList :=
  fun hmem => absurd (Count.isDigit_of_mem_toString hmem) (by decide)

/-- The letter between the two numbers is no digit, so both of them can be told from the name. -/
theorem seat_inj (heq : seat p h = seat q k) : p = q ∧ h = k := by
  have hlist : (toString p).toList ++ 'H' :: (toString h).toList =
      (toString q).toList ++ 'H' :: (toString k).toList := by
    have hchars := congrArg String.toList heq
    simpa [seat] using hchars
  obtain ⟨hpigeon, -, hhole⟩ := (List.append_cons_inj_of_notMem (not_mem_toString p)
    (not_mem_toString h)).1 hlist
  exact ⟨Nat.repr_inj.1 (String.toList_inj.1 hpigeon), Nat.repr_inj.1 (String.toList_inj.1 hhole)⟩

/-! ## Conditions -/

/-- There is a hole for the pigeon. -/
theorem eval_placed_iff (hpos : 1 ≤ holes) :
    (placed holes p).eval value = true ↔ ∃ h < holes, value (seat p h) = true := by
  rw [placed, eval_foldl_disjunction]
  constructor
  · rintro (hfirst | ⟨h, hh, hlater⟩)
    · exact ⟨0, hpos, hfirst⟩
    · rw [List.mem_range'_1] at hh
      exact ⟨h, by omega, hlater⟩
  · rintro ⟨h, hh, hsits⟩
    rcases Nat.eq_zero_or_pos h with rfl | hlater
    · exact Or.inl hsits
    · refine Or.inr ⟨h, ?_, hsits⟩
      rw [List.mem_range'_1]
      omega

theorem eval_apart_iff :
    (apart h p q).eval value = true ↔ ¬(value (seat p h) = true ∧ value (seat q h) = true) := by
  rw [apart, eval, eval, eval, eval_sits, eval_sits, ← Bool.not_and, Bool.not_eq_true',
    ← Bool.not_eq_true, Bool.and_eq_true]

/-- Every pigeon sits in a hole, and no two of them in the same. -/
structure IsSeating (pigeons holes : Nat) (value : String → Bool) : Prop where
  /-- No pigeon is left over. -/
  placed : ∀ p < pigeons, ∃ h < holes, value (seat p h) = true
  /-- A hole has at most one pigeon. -/
  apart : ∀ h < holes, ∀ p q, p < q → q < pigeons →
    ¬(value (seat p h) = true ∧ value (seat q h) = true)

/-- The formula holds under the seatings. -/
theorem eval_pigeonhole_iff (hpos : 1 ≤ holes) :
    (pigeonhole pigeons holes).eval value = true ↔ IsSeating pigeons holes value := by
  rw [pigeonhole, eval_conjoin, pigeonConditions, List.all_append, Bool.and_eq_true]
  simp only [List.all_eq_true, List.forall_mem_map, List.forall_mem_flatMap, List.mem_range,
    List.mem_range'_1, eval_placed_iff hpos, eval_apart_iff]
  constructor
  · rintro ⟨hplaced, hapart⟩
    exact ⟨hplaced, fun h hh p q hpq hq => hapart h hh p (by omega) q (by omega)⟩
  · intro hseating
    exact ⟨hseating.placed, fun h hh p _ q hq => hseating.apart h hh p q (by omega) (by omega)⟩

/-! ## Seatings -/

/-- A seating has a hole of its own for every pigeon. -/
theorem IsSeating.le (hseating : IsSeating pigeons holes value) : pigeons ≤ holes := by
  choose hole hlt hsits using fun p : Fin pigeons => hseating.placed p.1 p.2
  have hinjective : Function.Injective fun p => (⟨hole p, hlt p⟩ : Fin holes) := by
    intro p q heq
    have hsame : hole p = hole q := congrArg Fin.val heq
    by_contra hne
    rcases Nat.lt_or_gt_of_ne (Fin.val_ne_of_ne hne) with hpq | hqp
    · exact hseating.apart _ (hlt p) p q hpq q.2 ⟨hsits p, hsame ▸ hsits q⟩
    · exact hseating.apart _ (hlt q) q p hqp p.2 ⟨hsits q, hsame ▸ hsits p⟩
  exact Fin.le_of_injective _ hinjective

/-- Each pigeon sits in the hole of its own number. -/
def inOrder (pigeons : Nat) (name : String) : Bool :=
  (List.range pigeons).any fun p => name == seat p p

theorem inOrder_seat_iff : inOrder pigeons (seat p h) = true ↔ p < pigeons ∧ p = h := by
  simp only [inOrder, List.any_eq_true, List.mem_range, beq_iff_eq]
  constructor
  · rintro ⟨q, hq, heq⟩
    obtain ⟨rfl, rfl⟩ := seat_inj heq
    exact ⟨hq, rfl⟩
  · rintro ⟨hp, rfl⟩
    exact ⟨p, hp, rfl⟩

theorem isSeating_inOrder (hle : pigeons ≤ holes) : IsSeating pigeons holes (inOrder pigeons) where
  placed := fun p hp => ⟨p, Nat.lt_of_lt_of_le hp hle, inOrder_seat_iff.2 ⟨hp, rfl⟩⟩
  apart := by
    rintro h - p q hpq - ⟨hp, hq⟩
    obtain ⟨-, rfl⟩ := inOrder_seat_iff.1 hp
    obtain ⟨-, rfl⟩ := inOrder_seat_iff.1 hq
    exact Nat.lt_irrefl _ hpq

/-- With at least one hole, the pigeons can be seated exactly if there are no more of them than
holes. -/
theorem satisfiable_pigeonhole_iff (pigeons : Nat) {holes : Nat} (hpos : 1 ≤ holes) :
    (pigeonhole pigeons holes).Satisfiable ↔ pigeons ≤ holes := by
  constructor
  · rintro ⟨value, heval⟩
    exact ((eval_pigeonhole_iff hpos).1 heval).le
  · intro hle
    exact ⟨inOrder pigeons, (eval_pigeonhole_iff hpos).2 (isSeating_inOrder hle)⟩

theorem satisfiable_pigeonhole_iff_example :
    1 ≤ 3 ∧ (pigeonhole 3 3).Satisfiable ∧ ¬(pigeonhole 4 3).Satisfiable := by
  have hpos : 1 ≤ 3 := by decide
  refine ⟨hpos, (satisfiable_pigeonhole_iff 3 hpos).2 (by decide), ?_⟩
  rw [satisfiable_pigeonhole_iff 4 hpos]
  decide

end Presence.Formula
