import Presence.Checker.Conflict
import Presence.Checker.Engine
import Presence.ClauseForm.Policy
import Presence.Expression.Error
import Presence.Formula.Basic
import Presence.NameTable

/-!
# Notices

What is worth telling about a run besides its result is a *notice*.  A notice
has a level and a wording.  Results that come with notices are `Noted`.
-/

namespace Presence

/-! ## Levels -/

/-- How much a notice matters. -/
inductive Level where
  /-- The run failed. -/
  | error
  /-- The result is not what one might expect. -/
  | warn
  /-- The run goes on. -/
  | info
  /-- A step of the run. -/
  | debug
  /-- A detail of a step. -/
  | trace
  deriving DecidableEq, Repr

namespace Level

/-- The name of a level. -/
def name : Level → String
  | error => "ERROR"
  | warn => "WARN"
  | info => "INFO"
  | debug => "DEBUG"
  | trace => "TRACE"

/-- The place of a level, where 1 matters most. -/
def rank : Level → Nat
  | error => 1
  | warn => 2
  | info => 3
  | debug => 4
  | trace => 5

/-- The levels, the one that matters most first. -/
def all : List Level := [error, warn, info, debug, trace]

end Level

/-! ## Notices -/

/-- Something that is told about a run. -/
inductive Notice where
  /-- A feature model is about to be read from a file. -/
  | readingModel (path : String)
  /-- A feature model has been read. -/
  | modelRead (variableCount named clauses : Nat)
  /-- A condition has been brought into clause form; `next` is the number of the
  first temporary name that was not tried. -/
  | converted (clauses next : Nat)
  /-- An unknown variable has been given a number. -/
  | unknownVariable (name : String) (policy : Policy) (number : Nat)
  /-- A condition contradicts the feature model by unit clauses. -/
  | contradiction (condition : Formula) (conflict : Conflict)
  /-- A check took longer than its limit in milliseconds. -/
  | timedOut (limit : Nat)
  /-- A line of a listing has no colon. -/
  | missingSeparator (line : Nat)
  /-- The condition of a file is marked as invalid. -/
  | invalidCondition (file : String)
  /-- A condition could not be parsed. -/
  | unreadableCondition (condition : String) (cause : ExpressionError)
  /-- A listing has been read. -/
  | listingRead (files : Nat)
  /-- The condition of a file contradicts the feature model. -/
  | unsatisfiable (file : String)
  /-- A file is kept because its condition names an unknown variable. -/
  | kept (file : String) (cause : UnknownName)
  /-- The greeting of the command line. -/
  | banner
  /-- There is no feature model. -/
  | noModel
  /-- The number of clauses that follow, and the name of the strategy. -/
  | clauseCount (clauses : Nat) (strategy : String)
  /-- The numbers of numbered clauses that follow and of their variables. -/
  | numberedCount (clauses variableCount : Nat)
  /-- A condition is about to be checked. -/
  | checking (condition : Formula)
  /-- A listing is about to be read, from a file or from the standard input. -/
  | readingListing (path : Option String)
  /-- A listing has been pruned. -/
  | pruned (files total : Nat)
  /-- The run has failed. -/
  | failure (message : String)

namespace Notice

/-- The level of a notice. -/
def level : Notice → Level
  | converted .. => .trace
  | unknownVariable .. | contradiction .. => .debug
  | timedOut .. | missingSeparator .. | invalidCondition .. | unreadableCondition .. | kept .. =>
      .warn
  | failure .. => .error
  | _ => .info

/-- The wording of a notice. -/
def text : Notice → String
  | readingModel path => "Reading feature model '" ++ path ++ "'"
  | modelRead variableCount named clauses =>
      "Feature model has " ++ toString variableCount ++ " variables (" ++ toString named ++
        " named) and " ++ toString clauses ++ " clauses"
  | converted clauses next =>
      "Converted formula into " ++ toString clauses ++ " clauses using " ++ toString next ++
        " temporary variables"
  | unknownVariable name policy number =>
      "Unknown variable " ++ name ++ " is " ++ policy.name ++ " as " ++ toString number
  | contradiction condition conflict =>
      "Trivial contradiction in clauses of " ++ condition.render ++ ": " ++ conflict.render
  | timedOut limit => Course.lateMessage limit
  | missingSeparator line =>
      "line " ++ toString line ++ ": Missing ':' in presence condition listing"
  | invalidCondition file => "Presence condition for file " ++ file ++ " is invalid"
  | unreadableCondition condition cause =>
      "Couldn't parse expression \"" ++ condition ++ "\": " ++ cause.message
  | listingRead files => "Read " ++ toString files ++ " file locations"
  | unsatisfiable file => "Presence condition of " ++ file ++ " is unsatisfiable"
  | kept file cause => "Keeping " ++ file ++ ": " ++ cause.message
  | banner => "This is kminer 0.1.0"
  | noModel => "No feature model given, all variables are unconstrained"
  | clauseCount clauses strategy =>
      toString clauses ++ " clauses (" ++ strategy ++ " strategy)"
  | numberedCount clauses variableCount =>
      toString clauses ++ " clauses over " ++ toString variableCount ++ " variables"
  | checking condition => "Checking " ++ condition.render
  | readingListing (some path) => "Reading listing '" ++ path ++ "'"
  | readingListing none => "Reading listing from stdin"
  | pruned files total =>
      toString files ++ " of " ++ toString total ++ " files can never be compiled"
  | failure message => message

end Notice

/-! ## Results with notices -/

/-- A result with the notices on the way to it, the first notice first. -/
structure Noted (α : Type) where
  /-- The notices. -/
  notices : List Notice
  /-- The result. -/
  result : α

namespace Noted

/-- The notices with what becomes of the result. -/
def map {α β : Type} (f : α → β) (n : Noted α) : Noted β := ⟨n.notices, f n.result⟩

/-- The same result with notices in front. -/
def after {α : Type} (notices : List Notice) (n : Noted α) : Noted α :=
  { n with notices := notices ++ n.notices }

end Noted

end Presence
