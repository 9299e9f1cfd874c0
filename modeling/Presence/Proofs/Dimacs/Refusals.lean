import Presence.Proofs.Dimacs.Accepted

/-!
# Calls after an error

A reader that has stopped should refuse all further calls and keep what it has read.  Chunks are
refused in this way, but the end of the text is not: it does not look whether the reader has
stopped, and may even add a clause.  Nor does a missing 0 at the end of a text stop the reader,
so that chunks are read after it.  `Reader.refuses_iff` says for which calls it is as it should
be.

What decides this is whether the reader has a fault, which can be told from the answers that it
has given (`Reader.isSome_fault_after`).
-/

namespace Presence

open Dimacs

/-- The error is about the bytes of a text and not about its end or its counts. -/
def DimacsError.InText : DimacsError → Prop
  | unexpectedInput .. | numberTooLarge .. | invalidHeader .. | invalidNaming .. => True
  | unterminatedClause .. | variableCount .. | clauseCount .. | previousError => False

/-- The clause in progress has no 0 at the end. -/
def DimacsError.IsUnterminated (e : DimacsError) : Prop := ∃ line, e = unterminatedClause line

theorem DimacsError.InText.not_isUnterminated {e : DimacsError} (h : e.InText) :
    ¬e.IsUnterminated := by
  rintro ⟨line, rfl⟩
  exact h

namespace Reader

/-- A call of a reader. -/
inductive Request where
  /-- A chunk is read. -/
  | feed (chunk : List UInt8)
  /-- The text ends. -/
  | finish
  deriving DecidableEq, Repr

/-- Makes a call. -/
def ask (r : Reader) : Request → Reader × Except DimacsError Unit
  | .feed chunk => r.feed chunk
  | .finish => r.finish

/-- The reader after several calls. -/
def after (r : Reader) (requests : List Request) : Reader :=
  requests.foldl (fun r request => (r.ask request).1) r

/-- The answers to several calls. -/
def answers (r : Reader) : List Request → List (Except DimacsError Unit)
  | [] => []
  | request :: requests => (r.ask request).2 :: (r.ask request).1.answers requests

/-- The clauses, the names, the problem line and the counts are the same. -/
def SameContents (r r' : Reader) : Prop :=
  r'.cnf = r.cnf ∧ r'.names = r.names ∧ r'.header = r.header ∧ r'.clauseCount = r.clauseCount

/-- All of the calls are answered with the error that there was an error before, and none of
them changes what has been read. -/
def Refuses (r : Reader) : List Request → Prop
  | [] => True
  | request :: requests =>
      (r.ask request).2 = .error .previousError ∧ SameContents r (r.ask request).1 ∧
        Refuses (r.ask request).1 requests

/-- If the reader has stopped, then for an error in the text. -/
def FaultInText (r : Reader) : Prop := ∀ cause, r.fault = some cause → cause.InText

variable {r : Reader} {request : Request} {requests : List Request} {cause : DimacsError}

/-! ## Faults of steps -/

theorem faultInText_stop (h : cause.InText) : (r.stop cause).FaultInText := by
  rintro _ ⟨⟩
  exact h

namespace FaultInText

theorem digit (h : r.FaultInText) (negative : Bool) (value d : Nat) :
    (r.digit negative value d).FaultInText := by
  simp only [Reader.digit]
  split
  · exact h
  · exact faultInText_stop trivial

theorem endNumeral (h : r.FaultInText) (pending : Numeral) :
    (r.endNumeral pending).FaultInText := by
  rw [endNumeral_eq]
  exact h

theorem endNaming (h : r.FaultInText) (text : List UInt8) : (r.endNaming text).FaultInText := by
  simp only [Reader.endNaming]
  split
  · exact h
  · split
    · exact faultInText_stop trivial
    · split
      · exact faultInText_stop trivial
      · exact h

theorem endProblem (h : r.FaultInText) (text : List UInt8) :
    (r.endProblem text).FaultInText := by
  simp only [Reader.endProblem]
  split
  · exact faultInText_stop trivial
  · split
    · exact faultInText_stop trivial
    · exact h

theorem clauseByte (h : r.FaultInText) (atStart : Bool) (pending : Numeral) (b : UInt8) :
    (r.clauseByte atStart pending b).FaultInText := by
  unfold Reader.clauseByte
  cases digit? b with
  | some d => cases pending <;> exact h.digit _ _ _
  | none =>
      simp only
      split
      · exact h
      · split
        · exact h.endNumeral pending
        · split
          · exact h
          · split
            · exact h
            · exact faultInText_stop trivial

theorem modeByte (h : r.FaultInText) (b : UInt8) : (r.modeByte b).FaultInText := by
  rw [Reader.modeByte]
  cases r.mode with
  | lineStart => exact h.clauseByte _ _ _
  | clauses pending => exact h.clauseByte _ _ _
  | naming text =>
      simp only
      split
      · exact h.endNaming text
      · exact h
  | remark =>
      simp only
      split
      · exact h
      · exact h
  | problem text =>
      simp only
      split
      · exact h.endProblem text
      · exact h

theorem step (h : r.FaultInText) (b : UInt8) : (r.step b).FaultInText := by
  rw [Reader.step]
  split
  · exact h
  · refine modeByte ?_ b
    split
    · exact h
    · exact h

theorem foldl_step (h : r.FaultInText) (bytes : List UInt8) :
    (bytes.foldl Reader.step r).FaultInText := by
  induction bytes generalizing r with
  | nil => exact h
  | cons b bytes ih => exact ih (h.step b)

theorem endMode (h : r.FaultInText) : r.endMode.FaultInText := by
  rw [Reader.endMode]
  cases r.mode with
  | lineStart => exact h
  | clauses pending => exact h.endNumeral pending
  | naming text => exact h.endNaming text
  | remark => exact h
  | problem text => exact h.endProblem text

end FaultInText

/-! ## Answers -/

/-- A chunk is refused by a reader that has stopped, and else it is read up to a fault. -/
theorem feed_cases (r : Reader) (chunk : List UInt8) :
    (r.fault.isSome = true ∧ r.feed chunk = (r, .error .previousError)) ∨
      (r.fault = none ∧ (r.feed chunk).1 = chunk.foldl step r ∧
        (((chunk.foldl step r).fault = none ∧ (r.feed chunk).2 = .ok ()) ∨
          ∃ cause, (chunk.foldl step r).fault = some cause ∧
            (r.feed chunk).2 = .error cause)) := by
  cases hfault : r.fault with
  | some cause => exact Or.inl ⟨rfl, by rw [feed, hfault]; rfl⟩
  | none =>
      have hopen : ¬r.fault.isSome = true := by
        rw [hfault]
        exact Bool.false_ne_true
      refine Or.inr ⟨rfl, ?_⟩
      rw [feed, if_neg hopen]
      cases hchunk : (chunk.foldl step r).fault with
      | none => exact ⟨rfl, Or.inl ⟨rfl, by simp only [hchunk]⟩⟩
      | some cause => exact ⟨rfl, Or.inr ⟨cause, rfl, by simp only [hchunk]⟩⟩

/-- The end of a text has a fault in its last line, or the last clause is without a 0, or there
is no error, even if the reader had stopped. -/
theorem finish_cases (r : Reader) :
    (∃ cause, r.endMode.fault = some cause ∧ r.finish = (r.endMode, .error cause)) ∨
      (r.finish.1.fault = r.endMode.fault ∧ (r.fault = none → r.endMode.fault = none) ∧
        (r.finish.2 = .ok () ∨ ∃ line, r.finish.2 = .error (.unterminatedClause line))) := by
  rw [finish]
  split
  next cause hfault hend => exact Or.inl ⟨cause, hend, rfl⟩
  next hother =>
    have hend : r.fault = none → r.endMode.fault = none := fun hfault =>
      Option.eq_none_iff_forall_ne_some.2 fun cause hcause => hother cause hfault hcause
    split
    · exact Or.inr ⟨rfl, hend, Or.inl rfl⟩
    · exact Or.inr ⟨rfl, hend, Or.inr ⟨_, rfl⟩⟩

theorem FaultInText.ask (h : r.FaultInText) (request : Request) :
    (r.ask request).1.FaultInText := by
  cases request with
  | feed chunk =>
      rcases feed_cases r chunk with ⟨-, heq⟩ | ⟨-, heq, -⟩
      · rw [Reader.ask, heq]
        exact h
      · rw [Reader.ask, heq]
        exact h.foldl_step chunk
  | finish =>
      rcases finish_cases r with ⟨cause, -, heq⟩ | ⟨heq, -⟩
      · rw [Reader.ask, heq]
        exact h.endMode
      · intro cause hcause
        rw [Reader.ask, heq] at hcause
        exact h.endMode cause hcause

theorem FaultInText.after (h : r.FaultInText) (requests : List Request) :
    (r.after requests).FaultInText := by
  induction requests generalizing r with
  | nil => exact h
  | cons request requests ih => exact ih (h.ask request)

theorem isSome_fault_endMode (h : r.fault.isSome = true) : r.endMode.fault.isSome = true := by
  cases hend : r.endMode.fault with
  | some cause => rfl
  | none =>
      rw [fault_of_endMode hend] at h
      exact h

/-- A call stops the reader if it is answered by an error other than a missing 0. -/
theorem isSome_fault_ask (h : r.FaultInText) (request : Request) :
    (r.ask request).1.fault.isSome = true ↔
      r.fault.isSome = true ∨ ∃ e, (r.ask request).2 = .error e ∧ ¬e.IsUnterminated := by
  cases request with
  | feed chunk =>
      have hchunk := h.foldl_step chunk
      rcases feed_cases r chunk with ⟨hfault, heq⟩ | ⟨hnone, hreader, hanswer⟩
      · rw [ask, heq]
        exact iff_of_true hfault (Or.inl hfault)
      · rw [ask, hreader, hnone]
        rcases hanswer with ⟨hfault, hanswer⟩ | ⟨cause, hfault, hanswer⟩
        · rw [hfault, hanswer]
          simp
        · refine iff_of_true (by rw [hfault]; rfl) (Or.inr ⟨cause, hanswer, ?_⟩)
          exact (hchunk cause hfault).not_isUnterminated
  | finish =>
      rcases finish_cases r with ⟨cause, hfault, heq⟩ | ⟨hreader, hend, hanswer⟩
      · rw [ask, heq]
        refine iff_of_true (by rw [hfault]; rfl) (Or.inr ⟨cause, rfl, ?_⟩)
        exact (h.endMode cause hfault).not_isUnterminated
      · rw [ask, hreader]
        constructor
        · intro hfault
          refine Or.inl ?_
          cases hnone : r.fault with
          | some cause => rfl
          | none =>
              rw [hend hnone] at hfault
              exact hfault
        · rintro (hfault | ⟨e, he, hne⟩)
          · exact isSome_fault_endMode hfault
          · rcases hanswer with hok | ⟨line, hline⟩
            · rw [hok] at he
              cases he
            · rw [hline] at he
              cases he
              exact absurd ⟨line, rfl⟩ hne

/-- The reader has stopped if one of its answers was an error other than a missing 0. -/
theorem isSome_fault_after (h : r.FaultInText) (requests : List Request) :
    (r.after requests).fault.isSome = true ↔
      r.fault.isSome = true ∨ ∃ e, .error e ∈ r.answers requests ∧ ¬e.IsUnterminated := by
  induction requests generalizing r with
  | nil => simp [after, answers]
  | cons request requests ih =>
      have hafter : r.after (request :: requests) = (r.ask request).1.after requests := rfl
      rw [hafter, ih (h.ask request), isSome_fault_ask h, answers]
      simp only [List.mem_cons, or_and_right, exists_or, or_assoc, eq_comm]

/-! ## Refusals -/

/-- A chunk is refused exactly by a reader that has stopped. -/
theorem feed_refused_iff (h : r.FaultInText) (chunk : List UInt8) :
    (r.feed chunk).2 = .error .previousError ↔ r.fault.isSome = true := by
  rcases feed_cases r chunk with ⟨hfault, heq⟩ | ⟨hnone, -, ⟨-, hanswer⟩ | ⟨cause, hfault, hanswer⟩⟩
  · exact iff_of_true (by rw [heq]) hfault
  · rw [hanswer, hnone]
    simp
  · rw [hanswer, hnone]
    refine iff_of_false ?_ Bool.false_ne_true
    rintro ⟨⟩
    exact h.foldl_step chunk _ hfault

/-- The end of the text is never refused. -/
theorem finish_not_refused (h : r.FaultInText) : r.finish.2 ≠ .error .previousError := by
  intro hrefused
  rcases finish_cases r with ⟨cause, hfault, heq⟩ | ⟨-, -, hanswer | ⟨line, hanswer⟩⟩
  · rw [heq] at hrefused
    cases hrefused
    exact h.endMode _ hfault
  · rw [hanswer] at hrefused
    cases hrefused
  · rw [hanswer] at hrefused
    cases hrefused

/-- Calls are refused by a reader that has stopped, as long as the text is not ended. -/
theorem refuses_iff_fault (h : r.FaultInText) (later : List Request) :
    r.Refuses later ↔ later = [] ∨ .finish ∉ later ∧ r.fault.isSome = true := by
  induction later with
  | nil => simp [Refuses]
  | cons request later ih =>
      cases request with
      | finish =>
          refine iff_of_false (fun hrefuses => finish_not_refused h hrefuses.1) ?_
          simp
      | feed chunk =>
          rw [Refuses, ask, feed_refused_iff h]
          rcases feed_cases r chunk with ⟨hfault, heq⟩ | ⟨hnone, -⟩
          · have hsame : r.SameContents r := ⟨rfl, rfl, rfl, rfl⟩
            rw [heq, ih]
            by_cases hnil : later = []
            · simp [hfault, hsame, hnil]
            · simp [hfault, hsame, hnil]
          · simp [hnone]

/-- After any calls, further calls are all refused and change nothing exactly if none of them ends
the text and an error other than a missing 0 was answered before. -/
theorem refuses_iff (stem : String) (before later : List Request) :
    (after { stem } before).Refuses later ↔
      later = [] ∨ .finish ∉ later ∧
        ∃ e, .error e ∈ answers { stem } before ∧ ¬e.IsUnterminated := by
  have hstart : FaultInText { stem } := fun cause hcause => by cases hcause
  rw [refuses_iff_fault (hstart.after before), isSome_fault_after hstart]
  simp

/-- After an error the end of a text adds a clause, and after a missing 0 the text goes on. -/
theorem refuses_fails :
    (answers {} [.feed [49, 32, 48, 63]] = [.error (.unexpectedInput 1 (Char.ofNat 63))] ∧
      ((after {} [.feed [49, 32, 48, 63]]).ask .finish).2 = .ok () ∧
      (after {} [.feed [49, 32, 48, 63]]).cnf.clauses = #[] ∧
      ((after {} [.feed [49, 32, 48, 63]]).ask .finish).1.cnf.clauses = #[[⟨1, true⟩]] ∧
      ¬(after {} [.feed [49, 32, 48, 63]]).Refuses [.finish]) ∧
    answers {} [.feed [49, 32, 50, 10], .finish] = [.ok (), .error (.unterminatedClause 2)] ∧
      ¬(after {} [.feed [49, 32, 50, 10], .finish]).Refuses [.feed [48, 10]] := by
  refine ⟨⟨rfl, rfl, rfl, rfl, fun h => ?_⟩, rfl, fun h => ?_⟩
  · cases h.1
  · cases h.1

end Reader
end Presence
