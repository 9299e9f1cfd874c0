/-!
# Counts

A *count* is a number below `2 ^ 64` in decimal digits.  Leading zeros and one
leading plus sign are allowed.
-/

namespace Presence.Count

/-- The largest count, `2 ^ 64 - 1`. -/
def largest : Nat := 0xFFFFFFFFFFFFFFFF

/-- An ASCII digit. -/
def isDigit (c : Char) : Bool := '0' ≤ c && c ≤ '9'

/-- The value of a digit. -/
def digitValue (c : Char) : Nat := c.toNat - '0'.toNat

/-- The number written by a row of digits. -/
def ofDigits (digits : List Char) : Nat := digits.foldl (fun n c => n * 10 + digitValue c) 0

/-- The count written by a row of digits, of which there is at least one. -/
def unsigned? (text : List Char) : Option Nat :=
  if !text.isEmpty && text.all isDigit && ofDigits text ≤ largest then some (ofDigits text)
  else none

/-- The count that a text writes. -/
def read? : List Char → Option Nat
  | '+' :: digits => unsigned? digits
  | digits => unsigned? digits

end Presence.Count
