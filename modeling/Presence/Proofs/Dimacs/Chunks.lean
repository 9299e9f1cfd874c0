import Presence.Dimacs.Reader

/-!
# Reading in chunks

It does not matter how a DIMACS text is cut into chunks, nor whether clauses are taken
out of the reader in between (`Reader.perform_eq_whole`).

A reader from which clauses were taken goes on like one that still has them
(`Reader.Continues`).  No step looks at the clauses that are there already, and the number
of variables stays when they are taken.  So each step of the reader keeps this relation,
and so does a whole chunk.
-/

namespace Presence

/-! ## Clauses in two parts -/

/-- The clauses of `whole` are the ones taken and then those of `rest`. -/
structure Cnf.Continues (taken : List Clause) (rest whole : Cnf) : Prop where
  /-- The number of variables is the same. -/
  variableCount : rest.variableCount = whole.variableCount
  /-- The clauses follow those taken. -/
  clauses : taken ++ rest.clauses.toList = whole.clauses.toList

namespace Cnf.Continues

variable {taken : List Clause} {rest whole : Cnf}

theorem refl (f : Cnf) : Continues [] f f := ⟨rfl, rfl⟩

theorem add (h : Continues taken rest whole) (c : Clause) :
    Continues taken (rest.add c) (whole.add c) := by
  refine ⟨congrArg (max · c.largest) h.variableCount, ?_⟩
  rw [Cnf.add, Cnf.add, Array.toList_push, Array.toList_push, ← List.append_assoc, h.clauses]

theorem reserve (h : Continues taken rest whole) (count : Nat) :
    Continues taken (rest.reserve count) (whole.reserve count) :=
  ⟨congrArg (max · count) h.variableCount, h.clauses⟩

/-- Taking all clauses leaves none. -/
theorem take (h : Continues taken rest whole) :
    Continues (taken ++ rest.clauses.toList) (.ofCount rest.variableCount) whole :=
  ⟨h.variableCount, (List.append_nil _).trans h.clauses⟩

end Cnf.Continues

namespace Reader

/-- The reader differs from `whole` only in that clauses were taken from it. -/
def Continues (taken : List Clause) (r whole : Reader) : Prop :=
  ∃ f, whole = { r with cnf := f } ∧ Cnf.Continues taken r.cnf f

namespace Continues

variable {taken : List Clause} {r whole : Reader}

theorem digit (h : Continues taken r whole) (negative : Bool) (value d : Nat) :
    Continues taken (r.digit negative value d) (whole.digit negative value d) := by
  obtain ⟨f, rfl, hf⟩ := h
  simp only [Reader.digit]
  split <;> exact ⟨f, rfl, hf⟩

theorem endNumeral (h : Continues taken r whole) (pending : Dimacs.Numeral) :
    Continues taken (r.endNumeral pending) (whole.endNumeral pending) := by
  obtain ⟨f, rfl, hf⟩ := h
  cases pending with
  | absent | minus => exact ⟨f, rfl, hf⟩
  | digits negative value =>
      simp only [Reader.endNumeral]
      split
      · exact ⟨_, rfl, hf.add _⟩
      · exact ⟨f, rfl, hf⟩

theorem endNaming (h : Continues taken r whole) (text : List UInt8) :
    Continues taken (r.endNaming text) (whole.endNaming text) := by
  obtain ⟨f, rfl, hf⟩ := h
  simp only [Reader.endNaming]
  split
  · exact ⟨f, rfl, hf⟩
  · split
    · exact ⟨f, rfl, hf⟩
    · split <;> exact ⟨f, rfl, hf⟩

theorem endProblem (h : Continues taken r whole) (text : List UInt8) :
    Continues taken (r.endProblem text) (whole.endProblem text) := by
  obtain ⟨f, rfl, hf⟩ := h
  simp only [Reader.endProblem]
  split
  · exact ⟨f, rfl, hf⟩
  · split
    · exact ⟨f, rfl, hf⟩
    · exact ⟨_, rfl, hf.reserve _⟩

theorem mode (h : Continues taken r whole) (mode : Dimacs.Mode) :
    Continues taken { r with mode } { whole with mode } := by
  obtain ⟨f, rfl, hf⟩ := h
  exact ⟨f, rfl, hf⟩

theorem clauseByte (h : Continues taken r whole) (atStart : Bool) (pending : Dimacs.Numeral)
    (b : UInt8) :
    Continues taken (r.clauseByte atStart pending b) (whole.clauseByte atStart pending b) := by
  have hend := h.endNumeral pending
  unfold Reader.clauseByte
  cases digit? b with
  | some d => cases pending <;> exact h.digit _ _ _
  | none =>
      obtain ⟨f, rfl, hf⟩ := h
      simp only
      split
      next => exact ⟨f, rfl, hf⟩
      next =>
        split
        next => exact hend.mode _
        next =>
          split
          next => exact ⟨f, rfl, hf⟩
          next => split <;> exact ⟨f, rfl, hf⟩

theorem modeByte (h : Continues taken r whole) (b : UInt8) :
    Continues taken (r.modeByte b) (whole.modeByte b) := by
  have hmode : whole.mode = r.mode := by
    obtain ⟨f, rfl, _⟩ := h
    rfl
  rw [Reader.modeByte, Reader.modeByte, hmode]
  cases r.mode with
  | lineStart => exact h.clauseByte _ _ _
  | clauses pending => exact h.clauseByte _ _ _
  | naming text =>
      simp only
      split
      · exact h.endNaming _
      · exact h.mode _
  | remark =>
      simp only
      split
      · exact h.mode _
      · exact h
  | problem text =>
      simp only
      split
      · exact h.endProblem _
      · exact h.mode _

theorem fault_eq (h : Continues taken r whole) : whole.fault = r.fault := by
  obtain ⟨f, rfl, _⟩ := h
  rfl

/-- A byte is read alike whether clauses were taken or not. -/
theorem step (h : Continues taken r whole) (b : UInt8) :
    Continues taken (r.step b) (whole.step b) := by
  rw [Reader.step, Reader.step, h.fault_eq]
  split
  · exact h
  · refine modeByte ?_ b
    split
    · obtain ⟨f, rfl, hf⟩ := h
      exact ⟨f, rfl, hf⟩
    · exact h

theorem foldl_step (h : Continues taken r whole) (bytes : List UInt8) :
    Continues taken (bytes.foldl Reader.step r) (bytes.foldl Reader.step whole) := by
  induction bytes generalizing r whole with
  | nil => exact h
  | cons b bytes ih => exact ih (h.step b)

theorem endMode (h : Continues taken r whole) : Continues taken r.endMode whole.endMode := by
  have hmode : whole.mode = r.mode := by
    obtain ⟨f, rfl, _⟩ := h
    rfl
  rw [Reader.endMode, Reader.endMode, hmode]
  cases r.mode with
  | lineStart => exact h
  | clauses pending => exact (h.endNumeral pending).mode _
  | naming text => exact h.endNaming text
  | remark => exact h.mode _
  | problem text => exact h.endProblem text

end Continues

/-! ## Calls on a reader -/

/-- A reader that has stopped reads no more. -/
theorem foldl_step_of_fault {r : Reader} {cause : DimacsError} (h : r.fault = some cause)
    (bytes : List UInt8) : bytes.foldl step r = r := by
  induction bytes with
  | nil => rfl
  | cons b bytes ih => rw [List.foldl_cons, step, if_pos (by rw [h]; rfl), ih]

/-- A reader that has not stopped had not stopped before either. -/
theorem fault_of_foldl_step {r : Reader} {bytes : List UInt8}
    (h : (bytes.foldl step r).fault = none) : r.fault = none := by
  cases hcause : r.fault with
  | none => rfl
  | some cause =>
      rw [foldl_step_of_fault hcause, hcause] at h
      cases h

/-- What is done with a reader before the end of the text. -/
inductive Call where
  /-- A chunk is fed. -/
  | feed (chunk : List UInt8)
  /-- The clauses are taken out. -/
  | take
  deriving DecidableEq, Repr

/-- The bytes that a call feeds. -/
def Call.bytes : Call → List UInt8
  | feed chunk => chunk
  | take => []

/-- What a text comes to. -/
structure Outcome where
  /-- The clauses, those taken on the way first. -/
  clauses : List Clause
  /-- The number of variables. -/
  variableCount : Nat
  /-- The number of clauses read. -/
  clauseCount : Nat
  /-- The problem line. -/
  header : Option Header
  /-- The named variables and their mark. -/
  names : NameTable
  /-- The comparison with the problem line. -/
  verdict : Except DimacsError Unit

/-- What a text comes to that the reader has read. -/
def outcome (r : Reader) (taken : List Clause) : Outcome where
  clauses := taken ++ r.cnf.clauses.toList
  variableCount := r.cnf.variableCount
  clauseCount := r.clauseCount
  header := r.header
  names := r.names
  verdict := r.checkHeader

/-- Makes the calls in turn and ends the text, or stops at the first fault.  `taken` has
the clauses taken before. -/
def perform (taken : List Clause) (r : Reader) : List Call → Except DimacsError Outcome
  | [] => r.finish.2.map fun _ => r.finish.1.outcome taken
  | .feed chunk :: calls => (r.feed chunk).2 >>= fun _ => perform taken (r.feed chunk).1 calls
  | .take :: calls => perform (taken ++ r.takeCnf.1.clauses.toList) r.takeCnf.2 calls

variable {taken : List Clause} {r whole : Reader}

namespace Continues

theorem finish (h : Continues taken r whole) :
    whole.finish.2 = r.finish.2 ∧ Continues taken r.finish.1 whole.finish.1 := by
  have hended := h.endMode
  rw [Reader.finish, Reader.finish, h.fault_eq, hended.fault_eq]
  generalize r.endMode = ended, whole.endMode = ended' at hended
  obtain ⟨f, rfl, hf⟩ := hended
  split
  · exact ⟨rfl, f, rfl, hf⟩
  · simp only
    split
    · rw [← hf.variableCount]
      exact ⟨rfl, f, rfl, hf⟩
    · exact ⟨rfl, f, rfl, hf⟩

theorem outcome (h : Continues taken r whole) : r.outcome taken = whole.outcome [] := by
  obtain ⟨f, rfl, hf⟩ := h
  simp only [Reader.outcome, checkHeader, hf.variableCount, hf.clauses, List.nil_append]

/-- Ending the text comes to the same whether clauses were taken or not. -/
theorem perform_nil (h : Continues taken r whole) : perform taken r [] = perform [] whole [] := by
  obtain ⟨hresult, hfinished⟩ := h.finish
  rw [perform, perform, hresult, hfinished.outcome]

end Continues

/-- Feeding a chunk goes on with what follows unless there is a fault in it. -/
theorem perform_feed (h : r.fault = none) (chunk : List UInt8) (calls : List Call) :
    perform taken r (.feed chunk :: calls) =
      match (chunk.foldl step r).fault with
      | none => perform taken (chunk.foldl step r) calls
      | some cause => .error cause := by
  have hopen : ¬r.fault.isSome = true := by
    rw [h]
    exact nofun
  simp only [perform, feed, if_neg hopen]
  cases (chunk.foldl step r).fault with
  | none => rfl
  | some cause => rfl

/-- Whatever was taken, the calls come to what all their bytes as one chunk come to. -/
theorem perform_eq_of_continues (h : Continues taken r whole) (hfault : r.fault = none)
    (calls : List Call) :
    perform taken r calls = perform [] whole [.feed (calls.flatMap Call.bytes)] := by
  induction calls generalizing taken r whole with
  | nil =>
      have hwhole : whole.fault = none := h.fault_eq.trans hfault
      rw [perform_feed hwhole]
      simp only [List.flatMap_nil, List.foldl_nil, hwhole]
      exact h.perform_nil
  | cons call calls ih =>
      cases call with
      | take =>
          obtain ⟨f, rfl, hf⟩ := h
          exact ih ⟨f, rfl, hf.take⟩ hfault
      | feed chunk =>
          have hwhole : whole.fault = none := h.fault_eq.trans hfault
          have hchunk := h.foldl_step chunk
          rw [List.flatMap_cons, Call.bytes, perform_feed hfault, perform_feed hwhole,
            List.foldl_append]
          cases hr : (chunk.foldl step r).fault with
          | none =>
              have hrest := ih hchunk hr
              rw [perform_feed (hchunk.fault_eq.trans hr)] at hrest
              exact hrest
          | some cause =>
              have hstop := hchunk.fault_eq.trans hr
              rw [foldl_step_of_fault hstop, hstop]

/-- However a text is cut into chunks, and wherever clauses are taken out in between, it
has the same first fault as a whole, or comes to the same. -/
theorem perform_eq_whole (stem : String) (calls : List Call) :
    perform [] { stem } calls = perform [] { stem } [.feed (calls.flatMap Call.bytes)] :=
  perform_eq_of_continues ⟨_, rfl, .refl _⟩ rfl calls

/-- A numeral and a clause go on after clauses were taken. -/
example : (perform [] {} [.feed [49, 32, 48, 10, 45, 49], .take, .feed [50], .take, .feed [32, 48]]).map
    (fun o => (o.clauses, o.variableCount)) = .ok ([[⟨1, true⟩], [⟨12, false⟩]], 12) := by rfl

end Reader

end Presence
