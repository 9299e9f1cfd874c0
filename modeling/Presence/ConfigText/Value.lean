import Presence.ConfigText.Fault
import Presence.Decimal

/-!
# Values of configuration texts

A value is a text, a number, a truth value, a date or time, a sequence or a table.  A
table has entries, each a key with a value.  It is written in braces, or it comes about
by a key with periods, whose parts lead through tables to a value.

Entries stay in the order in which they are written, and a key may come twice.  Whoever
interprets a table decides what that means.
-/

namespace Presence.ConfigText

/-- A key with its value. -/
structure Entry (α : Type) where
  /-- The key. -/
  key : Placed String
  /-- The value. -/
  value : Placed α

/-- A number that is not whole. -/
inductive Fraction where
  /-- A binary number, with its sign. -/
  | finite (isNegative : Bool) (magnitude : Binary)
  /-- An infinity, with its sign. -/
  | infinite (isNegative : Bool)
  /-- No number. -/
  | undefined
  deriving DecidableEq, Repr

/-- The text of a fraction. -/
def Fraction.render : Fraction → String
  | finite isNegative magnitude => (if isNegative then "-" else "") ++ magnitude.shortest.render
  | infinite isNegative => if isNegative then "-inf" else "inf"
  | undefined => "NaN"

/-- A value. -/
inductive Value where
  /-- A text. -/
  | text (s : String)
  /-- A whole number. -/
  | integer (n : Int)
  /-- A number that is not whole. -/
  | fraction (f : Fraction)
  /-- A truth value. -/
  | boolean (b : Bool)
  /-- A date or a time. -/
  | moment
  /-- A sequence of values. -/
  | sequence (items : List (Placed Value))
  /-- A table in braces. -/
  | table (entries : List (Entry Value))
  /-- A table that a key with periods leads through. -/
  | path (entries : List (Entry Value))

/-- The entries of a table in order. -/
abbrev Entries := List (Entry Value)

/-- Adds an entry at the end whose key has the given parts.  All parts but the last one
lead on, each through the first entry of its name or through a new one. -/
def Entries.add (entries : Entries) :
    (key : List (Placed String)) → Placed Value → Except PlacedFault Entries
  | [], _ => .ok entries
  | [part], value => .ok (entries ++ [⟨part, value⟩])
  | part :: next :: parts, value =>
      match entries.span fun e => e.key.value ≠ part.value with
      | (_, []) =>
          (Entries.add [] (next :: parts) value).map fun inner =>
            entries ++ [⟨part, ⟨value.offset, .path inner⟩⟩]
      | (before, ⟨key, ⟨offset, .path inner⟩⟩ :: after) =>
          (Entries.add inner (next :: parts) value).map fun inner =>
            before ++ ⟨key, ⟨offset, .path inner⟩⟩ :: after
      | (_, e :: _) => .error ⟨e.value.offset, .noTable⟩

end Presence.ConfigText
