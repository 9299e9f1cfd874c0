import Presence.Text.Invisible

/-!
# Escapes

Messages show characters that cannot be seen by *escapes*.  There are two manners.
A text is shown in double quotes, with escapes for quotes, backslashes and invisible
characters (`quoted`).  A single character is shown in ASCII, with an escape for all
else and for either quote (`shownChar`).
-/

namespace Presence

/-- The escape of a character by the number of its code point. -/
def numberEscape (c : Char) : String :=
  "\\u\x7b" ++ String.ofList (Nat.toDigits 16 c.toNat) ++ "\x7d"

/-- The escape of a character by a letter, if it has one in both manners. -/
def letterEscape? : Char → Option String
  | '\t' => some "\\t"
  | '\n' => some "\\n"
  | '\r' => some "\\r"
  | '"' => some "\\\""
  | '\\' => some "\\\\"
  | _ => none

/-- A character of a text in double quotes. -/
def quotedChar (c : Char) : String :=
  match letterEscape? c with
  | some escape => escape
  | none =>
      if c == '\x00' then "\\0"
      else if isInvisible c then numberEscape c
      else String.singleton c

/-- A text in double quotes. -/
def quoted (text : String) : String :=
  "\"" ++ String.join (text.toList.map quotedChar) ++ "\""

/-- A character in ASCII. -/
def shownChar (c : Char) : String :=
  match letterEscape? c with
  | some escape => escape
  | none =>
      if c == '\'' then "\\'"
      else if '\x20' ≤ c && c ≤ '\x7e' then String.singleton c
      else numberEscape c

end Presence
