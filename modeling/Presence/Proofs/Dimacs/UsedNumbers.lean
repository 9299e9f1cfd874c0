import Presence.FeatureModel
import Presence.Proofs.Cnf
import Presence.Proofs.Except

/-!
# Numbers that a text uses

While a text is read its variables only become more, and so does the mark of the names: no
operation of the reader lowers one of them (`Reader.Rises`).  The reader forgets some numbers,
such as that of a name which another naming comment moves.  But what any of its states used on
the way is not above the mark of the feature model that the text comes to
(`FeatureModel.le_mark_of_uses`).
-/

namespace Presence

open Dimacs

namespace Reader

/-- The state uses the number: for a name, as one of the declared variables, or in a clause. -/
def Uses (r : Reader) (k : Nat) : Prop :=
  (∃ n, r.names.number? n = some k) ∨ (∃ h, r.header = some h ∧ k ≤ h.variableCount) ∨
    ∃ c ∈ r.cnf.clauses, ∃ l ∈ c, l.number = k

/-- The reader is in the state `r` after some of the bytes or at the end of them. -/
def Passes (start : Reader) (bytes : List UInt8) (r : Reader) : Prop :=
  (∃ read rest, bytes = read ++ rest ∧ r = read.foldl step start) ∨
    r = (bytes.foldl step start).endMode

/-- All declared variables are there. -/
def HasDeclared (r : Reader) : Prop :=
  ∀ h, r.header = some h → h.variableCount ≤ r.cnf.variableCount

/-- Neither the mark nor the number of variables is lower afterwards, and all declared
variables are there if they were. -/
structure Rises (r r' : Reader) : Prop where
  mark_le : r.names.mark ≤ r'.names.mark
  variableCount_le : r.cnf.variableCount ≤ r'.cnf.variableCount
  hasDeclared : r.HasDeclared → r'.HasDeclared

variable {r r' r'' start : Reader} {bytes : List UInt8} {k : Nat}

namespace Rises

theorem refl (r : Reader) : Rises r r := ⟨Nat.le_refl _, Nat.le_refl _, id⟩

theorem trans (h : Rises r r') (h' : Rises r' r'') : Rises r r'' where
  mark_le := Nat.le_trans h.mark_le h'.mark_le
  variableCount_le := Nat.le_trans h.variableCount_le h'.variableCount_le
  hasDeclared := fun hr => h'.hasDeclared (h.hasDeclared hr)

theorem of_eq (hnames : r'.names = r.names) (hcnf : r'.cnf = r.cnf)
    (hheader : r'.header = r.header) : Rises r r' where
  mark_le := Nat.le_of_eq (congrArg NameTable.mark hnames.symm)
  variableCount_le := Nat.le_of_eq (congrArg Cnf.variableCount hcnf.symm)
  hasDeclared := by
    intro h
    rw [HasDeclared, hcnf, hheader]
    exact h

end Rises

/-! ## Steps -/

theorem rises_digit (r : Reader) (negative : Bool) (value d : Nat) :
    Rises r (r.digit negative value d) := by
  rw [digit]
  split
  · exact .of_eq rfl rfl rfl
  · exact .of_eq rfl rfl rfl

theorem rises_endNumeral (r : Reader) (pending : Numeral) : Rises r (r.endNumeral pending) := by
  cases pending with
  | absent | minus => exact .refl r
  | digits negative value =>
      rw [endNumeral]
      split
      · refine ⟨Nat.le_refl _, Nat.le_max_left .., fun hr h hheader => ?_⟩
        exact Nat.le_trans (hr h hheader) (Nat.le_max_left ..)
      · exact .of_eq rfl rfl rfl

theorem rises_endNaming (r : Reader) (text : List UInt8) : Rises r (r.endNaming text) := by
  simp only [endNaming]
  split
  · exact .of_eq rfl rfl rfl
  · split
    · exact .of_eq rfl rfl rfl
    · split
      · exact .of_eq rfl rfl rfl
      -- The name may lose another number, but the mark stays above that.
      · exact ⟨Nat.le_max_left .., Nat.le_refl _, id⟩

theorem rises_endProblem (r : Reader) (text : List UInt8) : Rises r (r.endProblem text) := by
  simp only [endProblem]
  split
  · exact .of_eq rfl rfl rfl
  · split
    · exact .of_eq rfl rfl rfl
    · refine ⟨Nat.le_refl _, Nat.le_max_left .., fun _ h hheader => ?_⟩
      cases hheader
      exact Nat.le_max_right ..

theorem rises_clauseByte (r : Reader) (atStart : Bool) (pending : Numeral) (b : UInt8) :
    Rises r (r.clauseByte atStart pending b) := by
  unfold clauseByte
  cases digit? b with
  | some d => cases pending <;> exact rises_digit ..
  | none =>
      simp only
      split
      · exact .of_eq rfl rfl rfl
      · split
        · exact (rises_endNumeral r pending).trans (.of_eq rfl rfl rfl)
        · split
          · exact .of_eq rfl rfl rfl
          · split
            · exact .of_eq rfl rfl rfl
            · exact .of_eq rfl rfl rfl

theorem rises_modeByte (r : Reader) (b : UInt8) : Rises r (r.modeByte b) := by
  rw [modeByte]
  cases r.mode with
  | lineStart => exact rises_clauseByte ..
  | clauses pending => exact rises_clauseByte ..
  | naming text =>
      simp only
      split
      · exact rises_endNaming r text
      · exact .of_eq rfl rfl rfl
  | remark =>
      simp only
      split
      · exact .of_eq rfl rfl rfl
      · exact .refl r
  | problem text =>
      simp only
      split
      · exact rises_endProblem r text
      · exact .of_eq rfl rfl rfl

theorem rises_step (r : Reader) (b : UInt8) : Rises r (r.step b) := by
  rw [step]
  split
  · exact .refl r
  · split
    · have hline : Rises r { r with line := r.line + 1 } := .of_eq rfl rfl rfl
      exact hline.trans (rises_modeByte _ b)
    · exact rises_modeByte r b

theorem rises_foldl_step (r : Reader) (bytes : List UInt8) : Rises r (bytes.foldl step r) := by
  induction bytes generalizing r with
  | nil => exact .refl r
  | cons b bytes ih => exact (rises_step r b).trans (ih (r.step b))

theorem rises_endMode (r : Reader) : Rises r r.endMode := by
  rw [endMode]
  cases r.mode with
  | lineStart => exact .refl r
  | clauses pending => exact (rises_endNumeral r pending).trans (.of_eq rfl rfl rfl)
  | naming text => exact rises_endNaming r text
  | remark => exact .of_eq rfl rfl rfl
  | problem text => exact rises_endProblem r text

theorem rises_finish (r : Reader) : Rises r.endMode r.finish.1 := by
  rw [finish]
  split
  · exact .refl _
  · split
    · exact ⟨Nat.le_max_left .., Nat.le_refl _, id⟩
    · exact .refl _

/-! ## Whole texts -/

/-- The numbers in use are not above both the mark and the number of variables. -/
theorem Uses.le_max (h : r.Uses k) (hdeclared : r.HasDeclared) :
    k ≤ max r.names.mark r.cnf.variableCount := by
  rcases h with ⟨n, hn⟩ | ⟨h, hheader, hk⟩ | ⟨c, hc, l, hl, rfl⟩
  · have := r.names.le_mark n k hn
    omega
  · have := hdeclared h hheader
    omega
  · have := Clause.number_le_largest hl
    have := r.cnf.largest_le c hc
    omega

/-- From every state passed on the way the end of the text is reached. -/
theorem Passes.rises (h : start.Passes bytes r) :
    Rises start r ∧ Rises r (bytes.foldl step start).endMode := by
  rcases h with ⟨read, rest, rfl, rfl⟩ | rfl
  · refine ⟨rises_foldl_step start read, ?_⟩
    rw [List.foldl_append]
    exact (rises_foldl_step _ rest).trans (rises_endMode _)
  · exact ⟨(rises_foldl_step start bytes).trans (rises_endMode _), .refl _⟩

/-- The end of a source leaves what the end of the text does. -/
theorem readSource_eq_ok {source : List (Except DimacsError (List UInt8))}
    (hsource : source = [] ∨ source = [.ok []])
    (h : readSource id pure r source = (.ok r' : Except DimacsError Reader)) :
    r.finish = (r', .ok ()) ∧ r'.checkHeader = .ok () := by
  rcases hsource with rfl | rfl
  all_goals
    simp only [readSource] at h
    split at h
    · cases h
    · obtain ⟨_, hvisit, h⟩ := bind_eq_ok_iff.1 h
      cases hvisit
      split at h
      · cases h
      · cases h
        exact ⟨by assumption, by assumption⟩

theorem readAll_eq_ok (h : readAll start bytes = .ok r) :
    (bytes.foldl step start).finish = (r, .ok ()) ∧ r.checkHeader = .ok () ∧
      (start.fault = none → (bytes.foldl step start).fault = none) := by
  cases bytes with
  | nil =>
      obtain ⟨hfinish, hheader⟩ := readSource_eq_ok (Or.inr rfl) h
      exact ⟨hfinish, hheader, id⟩
  | cons b chunk =>
      rw [readAll, readSource] at h
      split at h
      next => cases h
      next r' hfeed =>
        obtain ⟨_, hvisit, h⟩ := bind_eq_ok_iff.1 h
        cases hvisit
        rw [feed] at hfeed
        split at hfeed
        next => cases hfeed
        next =>
          obtain ⟨rfl, hverdict⟩ := Prod.ext_iff.1 hfeed
          obtain ⟨hfinish, hheader⟩ := readSource_eq_ok (Or.inl rfl) h
          refine ⟨hfinish, hheader, fun _ => ?_⟩
          cases hfault : ((b :: chunk).foldl step start).fault with
          | none => rfl
          | some cause =>
              simp only [hfault] at hverdict
              cases hverdict

/-- What a reader that reads a whole text uses on the way is counted at the end. -/
theorem Passes.le_max (h : start.Passes bytes r) (hstart : start.HasDeclared)
    (hread : readAll start bytes = .ok r') (huses : r.Uses k) :
    k ≤ max r'.names.mark r'.cnf.variableCount := by
  obtain ⟨hbefore, hafter⟩ := h.rises
  have hfinish : Rises (bytes.foldl step start).endMode r' := by
    have h := rises_finish (bytes.foldl step start)
    rwa [(readAll_eq_ok hread).1] at h
  have hrises := hafter.trans hfinish
  have := huses.le_max (hbefore.hasDeclared hstart)
  have := hrises.mark_le
  have := hrises.variableCount_le
  omega

end Reader

/-- No number that the text used at any time is above the mark. -/
theorem FeatureModel.le_mark_of_uses {stem : String} {bytes : List UInt8} {m : FeatureModel}
    {r : Reader} {k : Nat} (h : parse stem bytes = .ok m)
    (hpasses : Reader.Passes { stem } bytes r) (huses : r.Uses k) : k ≤ m.names.mark := by
  rw [parse] at h
  cases hread : Reader.readAll { stem } bytes with
  | error cause =>
      rw [hread] at h
      cases h
  | ok r' =>
      rw [hread] at h
      cases h
      refine hpasses.le_max ?_ hread huses
      intro h hheader
      cases hheader

/-- The number 7 stays in use after its name got another one. -/
example : (FeatureModel.parse "" "c 7 A\nc 2 A\n".toUTF8.toList).toOption.map
    (fun m => (m.names.number? "A", m.names.mark)) = some (some 2, 7) := by decide +kernel

end Presence
