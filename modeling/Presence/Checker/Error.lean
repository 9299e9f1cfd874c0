import Presence.Checker.Engine
import Presence.ClauseForm.Numbering
import Presence.Dimacs.Error
import Presence.FileStore

/-!
# Faults of checks

A fault has a *chain* of wordings: its own, then that of its cause, and so on.
The wording of some faults ends with that of the cause, which the chain then
has once more.
-/

namespace Presence

/-- Why a feature model cannot be loaded. -/
inductive ModelError where
  /-- The bytes are not a DIMACS text. -/
  | malformed (cause : DimacsError)
  /-- The file cannot be opened, or not be read. -/
  | unreadable (path : String) (cause : FileFault)
  /-- The file is not a DIMACS text. -/
  | malformedFile (path : String) (cause : DimacsError)
  deriving DecidableEq, Repr

/-- What failed with a file, which is parsed as soon as it is opened. -/
def ModelError.step (isOpened : Bool) (path : String) : String :=
  "Failed to " ++ (if isOpened then "parse" else "open") ++ " DIMACS model '" ++ path ++ "'"

/-- The wordings of a fault and its causes. -/
def ModelError.chain : ModelError → List String
  | malformed cause => [cause.message]
  | unreadable path cause => [step cause.isOfReading path, cause.message]
  | malformedFile path cause => [step true path, cause.message]

/-- Why a check has no answer. -/
inductive CheckError where
  /-- The feature model cannot be loaded. -/
  | model (cause : ModelError)
  /-- The condition cannot be used as a constraint. -/
  | constraint (cause : ConstraintError)
  /-- The condition names an unknown variable. -/
  | unknownName (cause : UnknownName)
  /-- The check took longer than its limit in milliseconds. -/
  | timeout (limit : Nat)
  /-- The engine failed. -/
  | engine (cause : EngineFault)
  /-- The worker ended without an answer. -/
  | workerFailed
  /-- The worker could not be started. -/
  | workerNotStarted (message : String)
  deriving DecidableEq, Repr

namespace CheckError

/-- The wording of a fault. -/
def message : CheckError → String
  | model cause => "Failed to load feature model: " ++ cause.chain.headD ""
  | constraint cause => "Invalid constraint: " ++ cause.message
  | unknownName cause => cause.message
  | timeout limit => Course.lateMessage limit
  | engine cause => "SAT engine failed: " ++ cause.message
  | workerFailed => "SAT worker thread terminated without a result"
  | workerNotStarted message => message

/-- The wordings of a fault and its causes. -/
def chain (e : CheckError) : List String :=
  e.message ::
    match e with
    | model cause => cause.chain
    | constraint cause => [cause.message]
    | engine cause => cause.message :: cause.causes
    | unknownName _ | timeout _ | workerFailed | workerNotStarted _ => []

/-- The fault is one of the engine or of its worker, and so it says nothing about
the condition. -/
def isOfEngine : CheckError → Bool
  | timeout _ | engine _ | workerFailed | workerNotStarted _ => true
  | model _ | constraint _ | unknownName _ => false

/-- The fault of a check whose condition has no numbered clauses. -/
def ofNumbering : NumberingError → CheckError
  | .constraint cause => constraint cause
  | .unknownName cause => unknownName cause

end CheckError

/-- A chain of wordings in one line. -/
def joinChain (chain : List String) : String := String.intercalate ": " chain

end Presence
