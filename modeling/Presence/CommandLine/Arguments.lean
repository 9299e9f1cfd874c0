import Presence.Expression.Dialect

/-!
# Arguments

The command line is a command, options and at most one operand.  An option is
written `--name=value` or `--name value`, and `-C` also `-Cvalue`.  A value in an
argument of its own begins with no hyphen.  After the argument `--` everything is
an operand.

An option may stand without its value.  Then it says nothing, but it counts as a
use of the option.  An option other than `-C` is used at most once, and one that is
used has a value somewhere, unless there is a usual value.

Arguments that make no command have no further meaning: there is one fault for
all of them.
-/

namespace Presence

/-- The options of commands that check against a feature model. -/
structure ModelOptions where
  /-- The file of the feature model. -/
  model : Option String := none
  /-- The file of the configuration. -/
  configFile : Option String := none
  /-- Texts of single fields of the configuration, in order. -/
  fields : List String := []
  deriving DecidableEq, Repr

/-- What the command line asks for. -/
inductive Command where
  /-- Print the canonical text of a condition. -/
  | parse (dialect : Dialect) (expression : String)
  /-- Print the clause form of a condition, with or without numbers. -/
  | clauses (options : ModelOptions) (dialect : Dialect) (numbered : Bool) (expression : String)
  /-- Check a condition, or the feature model alone. -/
  | check (options : ModelOptions) (dialect : Dialect) (expression : Option String)
  /-- Prune a listing from a file or from the standard input. -/
  | prune (options : ModelOptions) (dialect : Dialect) (input : Option String)
  deriving DecidableEq, Repr

namespace Arguments

/-- An option that takes a value. -/
inductive ValueOption where
  /-- The dialect of conditions. -/
  | dialect
  /-- The file of the feature model. -/
  | model
  /-- The file of the configuration. -/
  | configFile
  /-- A field of the configuration. -/
  | field
  deriving DecidableEq, Repr

/-- The options that a command takes. -/
structure Accepted where
  /-- The options with values. -/
  values : List ValueOption
  /-- The option that asks for numbers. -/
  numbered : Bool := false

/-- A part of the command line. -/
inductive Part where
  /-- An option with its value, if it has one. -/
  | value (option : ValueOption) (text : Option String)
  /-- The option that asks for numbers. -/
  | numbered
  /-- An operand. -/
  | operand (text : String)
  deriving DecidableEq, Repr

/-- The long name of an option. -/
def ValueOption.name : ValueOption → String
  | dialect => "dialect"
  | model => "model"
  | configFile => "config"
  | field => "config-option"

/-- The argument begins with a hyphen and is no lone hyphen. -/
def isOption (argument : String) : Bool :=
  argument.toList.head? == some '-' && argument.length != 1

/-- The value written after an option in the same argument, whose equals sign
does not belong to it. -/
def attached (text : List Char) : String := String.ofList (text.dropWhile (· == '='))

/-- What an argument that begins with a hyphen amounts to. -/
inductive Reading where
  /-- It is complete. -/
  | complete (part : Part)
  /-- The next argument has the value of the option, unless it begins with a hyphen. -/
  | needsValue (option : ValueOption)
  /-- It is nothing that the command takes. -/
  | unknown

/-- The reading of an argument that begins with a hyphen. -/
def readOption (accepted : Accepted) (argument : String) : Reading :=
  match argument.toList with
  | '-' :: '-' :: rest =>
      let rest := rest.dropWhile (· == '-')
      let name := String.ofList (rest.takeWhile (· != '='))
      match accepted.values.find? fun option => option.name == name with
      | some option =>
          match rest.dropWhile (· != '=') with
          | [] => .needsValue option
          | text => .complete (.value option (some (attached text)))
      | none => if accepted.numbered && name == "dimacs" then .complete .numbered else .unknown
  | ['-', 'C'] => if accepted.values.contains .field then .needsValue .field else .unknown
  | '-' :: 'C' :: text =>
      if accepted.values.contains .field then .complete (.value .field (some (attached text)))
      else .unknown
  | _ => .unknown

/-- The parts of arguments, all of them operands if `plain`. -/
def parts? (accepted : Accepted) (plain : Bool) : List String → Option (List Part)
  | [] => some []
  | argument :: rest =>
      if !plain && argument == "--" then parts? accepted true rest
      else if plain || !isOption argument then
        (parts? accepted plain rest).map (.operand argument :: ·)
      else
        match readOption accepted argument, rest with
        | .complete part, rest => (parts? accepted false rest).map (part :: ·)
        | .needsValue option, [] => some [.value option none]
        | .needsValue option, text :: rest =>
            if isOption text then (parts? accepted false (text :: rest)).map (.value option none :: ·)
            else (parts? accepted false rest).map (.value option (some text) :: ·)
        | .unknown, _ => none

/-- The uses of an option in order, each with its value if it has one. -/
def usesOf (option : ValueOption) (parts : List Part) : List (Option String) :=
  parts.filterMap fun part =>
    match part with
    | .value o text => if o = option then some text else none
    | _ => none

/-- The operands in order. -/
def operands (parts : List Part) : List String :=
  parts.filterMap fun part =>
    match part with
    | .operand text => some text
    | _ => none

/-- The only member of a list, if it has one; a list of several has no answer. -/
def atMostOne? {α : Type} : List α → Option (Option α)
  | [] => some none
  | [a] => some (some a)
  | _ => none

/-- The value of an option that is used at most once, and then with a value. -/
def value? (option : ValueOption) (parts : List Part) : Option (Option String) := do
  match ← atMostOne? (usesOf option parts) with
  | none => some none
  | some none => none
  | some (some text) => some (some text)

/-- The values of an option that may be used often, and if it is used then at least
once with a value. -/
def values? (option : ValueOption) (parts : List Part) : Option (List String) :=
  let uses := usesOf option parts
  let values := uses.filterMap id
  if values.isEmpty && !uses.isEmpty then none else some values

/-- The dialect that is asked for, or else the usual one. -/
def dialect? (usual : Dialect) (parts : List Part) : Option Dialect := do
  match (← atMostOne? (usesOf .dialect parts)).join with
  | some name => Dialect.ofName? name
  | none => some usual

/-- The options about the feature model. -/
def modelOptions? (parts : List Part) : Option ModelOptions := do
  let model ← value? .model parts
  let configFile ← value? .configFile parts
  let fields ← values? .field parts
  return { model, configFile, fields }

/-- The options with values of commands that check against a feature model. -/
def modelValues : List ValueOption := [.dialect, .model, .configFile, .field]

/-- The command that arguments ask for. -/
def command? : List String → Option Command
  | "parse" :: rest => do
      let parts ← parts? { values := [.dialect] } false rest
      let dialect ← dialect? .plain parts
      let expression ← (← atMostOne? (operands parts))
      return .parse dialect expression
  | "cnf" :: rest => do
      let parts ← parts? { values := modelValues, numbered := true } false rest
      if parts.count .numbered > 1 then none
      else
        let options ← modelOptions? parts
        let dialect ← dialect? .plain parts
        let expression ← (← atMostOne? (operands parts))
        return .clauses options dialect (parts.contains .numbered) expression
  | "sat" :: rest => do
      let parts ← parts? { values := modelValues } false rest
      let options ← modelOptions? parts
      let dialect ← dialect? .plain parts
      return .check options dialect (← atMostOne? (operands parts))
  | "prune" :: rest => do
      let parts ← parts? { values := modelValues } false rest
      let options ← modelOptions? parts
      let dialect ← dialect? .tristate parts
      return .prune options dialect (← atMostOne? (operands parts))
  | _ => none

end Arguments

end Presence
