import Presence.ConfigText.Document
import Presence.ConfigText.Field

/-!
# Configuration texts

A configuration text has one field to a line, written `key = value`.  A key that comes
twice is a fault.

The name of a choice may also be the key of a table without anything in it, and such a
table may have the form of a section that is the only one of its text.  No option has
parts of its own, so sections are of no other use.

A fault is placed at the value that it is about.  A fault that is about no value, and a
key that comes twice is one, is placed at the last section, and that is the start of a
text without headers.
-/

namespace Presence

/-- Why a text is not a configuration text. -/
inductive TextFault where
  /-- It is no document. -/
  | malformed (fault : ConfigText.Fault)
  /-- A key that comes twice. -/
  | duplicateField (key : String)
  /-- A section for a choice that is not the only section. -/
  | severalSections (key : String)
  /-- A field that is no option. -/
  | field (cause : FieldError)
  deriving DecidableEq, Repr

/-- The wording of a fault. -/
def TextFault.message : TextFault → String
  | malformed fault => fault.message
  | duplicateField key => "duplicate field `" ++ key ++ "`"
  | severalSections key => "enum table must contain exactly one table for key `" ++ key ++ "`"
  | field cause => cause.message

/-- A fault of a configuration text and its place. -/
structure ConfigTextError where
  /-- The fault. -/
  fault : TextFault
  /-- The line of the place. -/
  line : Nat
  /-- The column of the place. -/
  column : Nat
  deriving DecidableEq, Repr

/-- The wording of a fault with its place. -/
def ConfigTextError.message (e : ConfigTextError) : String :=
  e.fault.message ++ " at line " ++ toString e.line ++ " column " ++ toString e.column

namespace ConfigText

/-- What a key of a table has. -/
def Value.holding : Value → Holding
  | .table [] | .path [] => .nothing
  | .table _ | .path _ => .entries
  | .text _ => .value "string"
  | .integer _ => .value "integer"
  | .fraction _ => .value "float"
  | .boolean _ => .value "boolean"
  | .moment => .value "datetime"
  | .sequence _ => .value "array"

/-- A value as that of a field. -/
def Value.field : Value → FieldValue
  | .text s => .text s
  | .integer n => .integer n
  | .fraction f => .decimal f.render
  | .boolean b => .boolean b
  | .moment => .moment
  | .sequence _ => .sequence
  | .table entries => .table (entries.map fun e => (e.key.value, e.value.value.holding))
  | .path _ => .path

/-- The offset of what a table has under its first key. -/
def Value.contentOffset : Value → Nat
  | .table (e :: _) => e.value.offset
  | _ => 0

/-- A section as the value of a field, where `isChoice` if the field is a choice.  It is a
sequence if several sections may have its name, but for a choice the last part of the
name counts in any case. -/
def Section.field (isChoice : Bool) (s : Section) : FieldValue :=
  if s.isRepeated && s.name.length = 1 && !isChoice then .sequence
  else
    .table ((s.name.getLast?.map fun part =>
      (part.value, if s.entries.isEmpty then Holding.nothing else .entries)).toList)

/-- A fault of a text with its offset. -/
abbrev FoundFault := Placed TextFault

/-- The update of an entry after entries with the given keys, where a fault that is about
no value has the offset `elsewhere`. -/
def Entry.update (elsewhere : Nat) (seen : List String) (e : Entry Value) :
    Except FoundFault ConfigUpdate :=
  if seen.contains e.key.value then .error ⟨elsewhere, .duplicateField e.key.value⟩
  else
    (ConfigUpdate.ofField e.key.value e.value.value.field).mapError fun cause =>
      match cause.site with
      | .nowhere => ⟨elsewhere, .field cause⟩
      | .value => ⟨e.value.offset, .field cause⟩
      | .content => ⟨e.value.value.contentOffset, .field cause⟩

/-- The update of entries in order. -/
def updateOfEntries (elsewhere : Nat) (u : ConfigUpdate) (seen : List String) :
    Entries → Except FoundFault ConfigUpdate
  | [] => .ok u
  | e :: entries =>
      match e.update elsewhere seen with
      | .error fault => .error fault
      | .ok v => updateOfEntries elsewhere (u.merge v) (e.key.value :: seen) entries

/-- The update of a section after entries with the given keys, where `isOnly` if it is the
only section. -/
def Section.update (elsewhere : Nat) (seen : List String) (isOnly : Bool) (s : Section) :
    Except FoundFault ConfigUpdate :=
  match s.name with
  | [] => .ok {}
  | part :: _ =>
      let key := part.value
      let isChoice := ConfigUpdate.choices.contains key
      if seen.contains key then .error ⟨elsewhere, .duplicateField key⟩
      else if isChoice && !isOnly then .error ⟨0, .severalSections key⟩
      else
        (ConfigUpdate.ofField key (s.field isChoice)).mapError fun cause =>
          match cause.site with
          | .content => ⟨0, .field cause⟩
          | _ => ⟨elsewhere, .field cause⟩

/-- The update of a document. -/
def Document.update (d : Document) : Except FoundFault ConfigUpdate :=
  let elsewhere := (d.getLast?.map Section.offset).getD 0
  match d with
  | [] => .ok {}
  | ⟨_, [], _, entries⟩ :: sections => do
      let u ← updateOfEntries elsewhere {} [] entries
      match sections with
      | [] => return u
      | s :: _ => return u.merge (← s.update elsewhere (entries.map fun e => e.key.value) false)
  | s :: sections => s.update elsewhere [] sections.isEmpty

end ConfigText

/-- The update that a configuration text makes. -/
def ConfigUpdate.ofText (text : String) : Except ConfigTextError ConfigUpdate :=
  let result : Except ConfigText.FoundFault ConfigUpdate := do
    let document ← (ConfigText.Document.ofText text).mapError fun fault =>
      ⟨fault.offset, .malformed fault.value⟩
    document.update
  result.mapError fun found =>
    let (line, column) := ConfigText.lineAndColumn text found.offset
    ⟨found.value, line, column⟩

end Presence
