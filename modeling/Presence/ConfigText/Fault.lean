import Presence.Text.Escape

/-!
# Faults of configuration texts

A fault has an offset, the number of bytes in front of its place.  For readers the
offset is turned into a line and a column, both counted from 1 (`lineAndColumn`).  A
line ends with a line feed, and columns count bytes.
-/

namespace Presence.ConfigText

/-- A thing with the number of bytes in front of it. -/
structure Placed (α : Type) where
  /-- The number of bytes. -/
  offset : Nat
  /-- The thing. -/
  value : α
  deriving DecidableEq, Repr

/-- Why a text has no entries. -/
inductive Fault where
  /-- A character that begins nothing. -/
  | unexpectedCharacter (c : Char)
  /-- A character that may not stand in quotes. -/
  | characterInQuotes (c : Char)
  /-- An escape that has no meaning. -/
  | unknownEscape (c : Char)
  /-- A character that is no digit of a code point. -/
  | digitWanted (c : Char)
  /-- A number that is no code point of a character. -/
  | noCharacter (code : Nat)
  /-- A line ends inside quotes. -/
  | lineEndInQuotes
  /-- The text ends inside quotes. -/
  | openQuotes
  /-- Something else was expected. -/
  | wanted (expected found : String)
  /-- The text ends where a value was expected. -/
  | valueMissing
  /-- A key in quotes for several lines. -/
  | keyOfLines
  /-- A value without quotes that is no number. -/
  | unquoted
  /-- A number that is malformed or too large. -/
  | number
  /-- A malformed date or time. -/
  | moment
  /-- A key with periods leads through a value that takes no keys. -/
  | noTable
  deriving DecidableEq, Repr

/-- The wording of a fault. -/
def Fault.message : Fault → String
  | unexpectedCharacter c => "unexpected character found: `" ++ shownChar c ++ "`"
  | characterInQuotes c => "invalid character in string: `" ++ shownChar c ++ "`"
  | unknownEscape c => "invalid escape character in string: `" ++ shownChar c ++ "`"
  | digitWanted c => "invalid hex escape character in string: `" ++ shownChar c ++ "`"
  | noCharacter code => "invalid escape value: `" ++ toString code ++ "`"
  | lineEndInQuotes => "newline in string found"
  | openQuotes => "unterminated string"
  | wanted expected found => "expected " ++ expected ++ ", found " ++ found
  | valueMissing => "unexpected eof encountered"
  | keyOfLines => "multiline strings are not allowed for key"
  | unquoted => "invalid TOML value, did you mean to use a quoted string?"
  | number => "invalid number"
  | moment => "invalid date"
  | noTable => "dotted key attempted to extend non-table type"

/-- A fault with its offset. -/
abbrev PlacedFault := Placed Fault

/-- The line and the column of an offset, from those of a text's first character on.
An offset behind the last line feed of a text belongs to the line after it. -/
def advance (line column : Nat) : (offset : Nat) → List Char → Nat × Nat
  | 0, _ | _, [] => (line, column)
  | offset, c :: rest =>
      if c = '\n' then advance (line + 1) 1 (offset - 1) rest
      else if c.utf8Size ≤ offset then advance line (column + c.utf8Size) (offset - c.utf8Size) rest
      else (line, column + offset)

/-- The line and the column of an offset in a text. -/
def lineAndColumn (text : String) (offset : Nat) : Nat × Nat := advance 1 1 offset text.toList

end Presence.ConfigText
