import Presence.Checker.Config
import Presence.Text.Count
import Presence.Text.Escape

/-!
# Fields

The options of a configuration are given as *fields*, a key with a value.
`ConfigUpdate.ofFields` is the one place that knows which keys there are and
which values they take.
-/

namespace Presence

/-- What a key of a table has. -/
inductive Holding where
  /-- Nothing. -/
  | nothing
  /-- A table with keys. -/
  | entries
  /-- A value of the kind. -/
  | value (kind : String)
  deriving DecidableEq, Repr

/-- The value of a field. -/
inductive FieldValue where
  /-- No value, which leaves the option as it is. -/
  | absent
  /-- A text. -/
  | text (s : String)
  /-- An integer. -/
  | integer (n : Int)
  /-- A truth value. -/
  | boolean (b : Bool)
  /-- A number with a fraction, as messages show it. -/
  | decimal (shown : String)
  /-- A date or a time. -/
  | moment
  /-- A sequence of values. -/
  | sequence
  /-- A table with its keys in order. -/
  | table (entries : List (String × Holding))
  /-- A table that a key of several parts leads through. -/
  | path
  deriving DecidableEq, Repr

namespace FieldValue

/-- What the kind of a value is called where another kind was expected. -/
def kind : FieldValue → String
  | absent => "null"
  | text _ => "string"
  | integer _ => "integer"
  | boolean _ => "boolean"
  | decimal _ => "float"
  | moment => "datetime"
  | sequence => "array"
  | table _ => "inline table"
  | path => "dotted table"

/-- What a value is called where its option does not take it. -/
def describe : FieldValue → String
  | absent => "null"
  | text s => "string " ++ quoted s
  | integer n => "integer `" ++ toString n ++ "`"
  | boolean b => "boolean `" ++ toString b ++ "`"
  | decimal shown => "floating point `" ++ shown ++ "`"
  | sequence => "sequence"
  | moment | table _ | path => "map"

end FieldValue

/-- Why fields do not make an update. -/
inductive FieldError where
  /-- There is no option of this key. -/
  | unknownField (key : String)
  /-- The option does not take this text. -/
  | unknownVariant (key value : String) (expected : List String)
  /-- The option does not take this integer. -/
  | invalidValue (key : String) (value : Int) (expected : String)
  /-- The option takes values of another kind. -/
  | invalidType (key : String) (value : FieldValue) (expected : String)
  /-- The option takes the name of something. -/
  | nameWanted (key : String) (value : FieldValue)
  /-- The option takes a table with one key. -/
  | oneKeyWanted (key : String) (hasNone : Bool)
  /-- The option takes a table whose key has no table with keys. -/
  | nothingWanted (key : String)
  /-- The option takes a table whose key has a table. -/
  | tableWanted (key kind : String)
  deriving DecidableEq, Repr

namespace FieldError

/-- Names that are allowed, as a message lists them. -/
def listed : List String → String
  | [a, b] => "expected `" ++ a ++ "` or `" ++ b ++ "`"
  | names => "expected one of " ++ String.intercalate ", " (names.map fun n => "`" ++ n ++ "`")

/-- The wording of a fault. -/
def message : FieldError → String
  | unknownField key => "unknown field `" ++ key ++ "`, " ++ listed Config.keys
  | unknownVariant key value expected =>
      "unknown variant `" ++ value ++ "`, " ++ listed expected ++ " for key `" ++ key ++ "`"
  | invalidValue key value expected =>
      "invalid value: integer `" ++ toString value ++ "`, expected " ++ expected ++
        " for key `" ++ key ++ "`"
  | invalidType key value expected =>
      "invalid type: " ++ value.describe ++ ", expected " ++ expected ++
        " for key `" ++ key ++ "`"
  | nameWanted key value =>
      "expected string or inline table, found " ++ value.kind ++ " for key `" ++ key ++ "`"
  | oneKeyWanted key hasNone =>
      "expected exactly 1 element, found " ++
        (if hasNone then "zero elements" else "more than 1 element") ++ " for key `" ++ key ++ "`"
  | nothingWanted key => "expected empty table for key `" ++ key ++ "`"
  | tableWanted key kind => "expected table, found " ++ kind ++ " for key `" ++ key ++ "`"

/-- What a fault is about. -/
inductive Site where
  /-- No value in particular. -/
  | nowhere
  /-- The value of the field. -/
  | value
  /-- What the value has under its first key. -/
  | content
  deriving DecidableEq, Repr

/-- What a fault is about.  A sequence is not looked at as a whole, so it is no site. -/
def site : FieldError → Site
  | unknownField _ | unknownVariant .. | invalidType _ .sequence _ => .nowhere
  | invalidValue .. | invalidType .. | nameWanted .. | oneKeyWanted .. => .value
  | nothingWanted _ | tableWanted .. => .content

end FieldError

namespace ConfigUpdate

/-- What a name is the name of. -/
def ofName {α : Type} (key : String) (all : List α) (name : α → String) (s : String) :
    Except FieldError α :=
  match all.find? fun a => name a == s with
  | some a => .ok a
  | none => .error (.unknownVariant key s (all.map name))

/-- What a value names: a text is a name, and so is the only key of a table that has
nothing under it. -/
def named {α : Type} (key : String) (all : List α) (name : α → String) :
    FieldValue → Except FieldError α
  | .text s => ofName key all name s
  | .table [(s, holding)] => do
      let a ← ofName key all name s
      match holding with
      | .nothing => return a
      | .entries => .error (.nothingWanted key)
      | .value kind => .error (.tableWanted key kind)
  | .table entries => .error (.oneKeyWanted key entries.isEmpty)
  | value => .error (.nameWanted key value)

/-- The options that take names. -/
def choices : List String := ["strategy", "unknown_variables"]

/-- The count that an integer is. -/
def count (key expected : String) : FieldValue → Except FieldError Nat
  | .integer n =>
      if 0 ≤ n ∧ n ≤ Count.largest then .ok n.toNat else .error (.invalidValue key n expected)
  | value => .error (.invalidType key value expected)

/-- The update that sets one option to a value. -/
def ofValue (key : String) (value : FieldValue) : Except FieldError ConfigUpdate :=
  match key with
  | "strategy" => (named key Strategy.all Strategy.name value).map fun s => { strategy := some s }
  | "unknown_variables" => (named key Policy.all Policy.name value).map fun p => { policy := some p }
  | "name_prefix" =>
      match value with
      | .text s => .ok { stem := some s }
      | value => .error (.invalidType key value "a string")
  | "timeout_ms" => (count key "u64" value).map fun n => { timeout := some n }
  | "max_depth" => (count key "usize" value).map fun n => { maxDepth := some n }
  | _ => .error (.unknownField key)

/-- The update of one field. -/
def ofField (key : String) (value : FieldValue) : Except FieldError ConfigUpdate :=
  if value = .absent ∧ Config.keys.contains key then .ok {} else ofValue key value

/-- The update that sets the options of fields, of which no two have the same key. -/
def ofFields (entries : List (String × FieldValue)) : Except FieldError ConfigUpdate :=
  entries.foldlM (fun u entry => (ofField entry.1 entry.2).map u.merge) {}

end ConfigUpdate

end Presence
