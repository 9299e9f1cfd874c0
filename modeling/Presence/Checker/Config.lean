import Presence.ClauseForm.Conversion
import Presence.ClauseForm.Policy
import Presence.Text.Escape

/-!
# Configuration

A *configuration* has five options.  An *update* sets some of them.  Updates
merge, and the later one wins where both set an option, so applying updates one
after the other is the same as applying their merge.
-/

namespace Presence

/-- The options of checks. -/
structure Config where
  /-- How conditions are converted. -/
  strategy : Strategy := .replacing
  /-- What becomes of variables that the feature model does not know. -/
  policy : Policy := .fail
  /-- What is put before the names of a feature model. -/
  stem : String := "CONFIG_"
  /-- The time limit of a check in milliseconds, 0 for none. -/
  timeout : Nat := 0
  /-- The deepest nesting of conditions. -/
  maxDepth : Nat := defaultMaxDepth
  deriving DecidableEq, Repr

/-- The time limit of a check in milliseconds, if there is one. -/
def Config.timeLimit? (c : Config) : Option Nat := if c.timeout = 0 then none else some c.timeout

/-- New values of some options. -/
structure ConfigUpdate where
  /-- The strategy, if it is set. -/
  strategy : Option Strategy := none
  /-- The policy, if it is set. -/
  policy : Option Policy := none
  /-- The text before names, if it is set. -/
  stem : Option String := none
  /-- The time limit, if it is set. -/
  timeout : Option Nat := none
  /-- The nesting limit, if it is set. -/
  maxDepth : Option Nat := none
  deriving DecidableEq, Repr

namespace ConfigUpdate

/-- One update in place of two, of which the second wins. -/
def merge (first second : ConfigUpdate) : ConfigUpdate where
  strategy := second.strategy.or first.strategy
  policy := second.policy.or first.policy
  stem := second.stem.or first.stem
  timeout := second.timeout.or first.timeout
  maxDepth := second.maxDepth.or first.maxDepth

/-- The configuration with the options that the update sets. -/
def apply (u : ConfigUpdate) (c : Config) : Config where
  strategy := u.strategy.getD c.strategy
  policy := u.policy.getD c.policy
  stem := u.stem.getD c.stem
  timeout := u.timeout.getD c.timeout
  maxDepth := u.maxDepth.getD c.maxDepth

theorem apply_merge (first second : ConfigUpdate) (c : Config) :
    (first.merge second).apply c = second.apply (first.apply c) := by
  simp only [apply, merge, Option.getD_or]

end ConfigUpdate

/-! ## Descriptions -/

namespace Config

/-- Each option with its default and what it is for. -/
def options : List (String × String × String) :=
  let defaults : Config := {}
  [("strategy", quoted defaults.strategy.name,
      "CNF conversion of presence conditions, \"replacing\" or \"distributive\"."),
    ("unknown_variables", quoted defaults.policy.name,
      "Handling of variables missing in the feature model, \"fail\", \"open\" or \"closed\"."),
    ("name_prefix", quoted defaults.stem,
      "Prefix prepended to the variable names of DIMACS models."),
    ("timeout_ms", toString defaults.timeout,
      "Time limit of a single check in milliseconds, 0 for no limit."),
    ("max_depth", toString defaults.maxDepth, "Maximal nesting depth of converted formulas.")]

/-- The keys of the options. -/
def keys : List String := options.map Prod.fst

/-- The description of all options. -/
def help : String :=
  String.join <| options.map fun (key, value, purpose) =>
    key ++ " = " ++ value ++ "\n    " ++ purpose ++ "\n"

end Config

end Presence
