import Presence.Cnf
import Presence.Text.Duration

/-!
# Engines

What decides whether numbered clauses can all hold is an *engine*.  Checks take
it as an argument, and nothing here says how it works.  An engine may fail, and
what is proved of checks assumes no more of it than that its answers are right
(`Engine.AnswersCorrectly`).

A check with a time limit leaves the engine to a worker and waits.  What becomes
of the worker is up to its surroundings, so it is told by the engine as well
(`Course`).
-/

namespace Presence

/-- Why an engine has no answer. -/
structure EngineFault where
  /-- The wording of the fault. -/
  message : String
  /-- The wordings of its causes, the nearest first. -/
  causes : List String := []
  deriving DecidableEq, Repr

/-- What becomes of a worker that a check waits for. -/
inductive Course where
  /-- It cannot be started. -/
  | notStarted (message : String)
  /-- It hands over what the engine says before the limit is over. -/
  | inTime
  /-- It is still at work when the limit is over. -/
  | late
  /-- It ends before the limit is over and hands over nothing. -/
  | lost
  deriving DecidableEq, Repr

/-- The wording of the fault that a limit in milliseconds is over. -/
def Course.lateMessage (limit : Nat) : String :=
  "SAT check exceeded the time limit of " ++ Duration.render limit

/-- What decides whether the clauses of several forms, added one form after the
other, can all hold. -/
structure Engine where
  /-- What the engine says of the forms. -/
  solve : List Cnf → Except EngineFault Bool
  /-- What becomes of a worker that runs the engine on the forms, with a limit in
  milliseconds. -/
  course : (limit : Nat) → List Cnf → Course

namespace Engine

/-- The engine never fails. -/
def Answers (engine : Engine) : Prop := ∀ forms, ∃ b, engine.solve forms = .ok b

/-- The engine never fails, and it says `true` exactly if some assignment of
truth values to variables makes all clauses of all forms hold. -/
structure AnswersCorrectly (engine : Engine) : Prop where
  /-- There is an answer. -/
  answers : engine.Answers
  /-- An answer is right. -/
  isRight : ∀ forms b, engine.solve forms = .ok b →
    (b = true ↔ ∃ v : Nat → Bool, ∀ f ∈ forms, f.holds v = true)

end Engine

end Presence
