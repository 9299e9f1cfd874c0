import Presence.ConfigText.Lexeme
import Presence.ConfigText.Value

/-!
# Numbers of configuration texts

A number is made of *numerals*, rows of digits with underscores between them.  A word
has a numeral at its start, and something else may follow (`Numeral.read`).

Whole numbers are words.  They are decimal, or to the base 16, 8 or 2 with a mark for
the base in front, and they fit into signed words of 64 bits.  A fraction has a decimal
numeral, and after it another one behind a period or an exponent or both.
-/

namespace Presence.ConfigText

/-- A numeral without its underscores. -/
structure Numeral where
  /-- It has a minus sign. -/
  isNegative : Bool
  /-- The digits. -/
  digits : List Char
  /-- What follows in the word. -/
  rest : List Char

namespace Numeral

/-- The form of numerals. -/
structure Form where
  /-- The base. -/
  base : Nat := 10
  /-- A minus sign may stand in front. -/
  hasSign : Bool := false
  /-- Zeros may stand in front of other digits. -/
  hasLeadingZeros : Bool := true

/-- The form of decimal whole numbers. -/
def whole : Form := { hasSign := true, hasLeadingZeros := false }

/-- The form of exponents in one word with their mark. -/
def exponent : Form := { hasSign := true }

/-- The value of a digit to a base. -/
def digit? (base : Nat) (c : Char) : Option Nat := (hexValue? c).filter (· < base)

/-- The digits of a word from an offset on, with what follows them.  The numeral began
at `start`, with a zero that allows no more digits if `isClosed`, and the character in
front of the offset is a digit if `afterDigit`. -/
def digitsFrom (f : Form) (start : Nat) (isFirst isClosed afterDigit : Bool) (offset : Nat) :
    List Char → Except PlacedFault (List Char × List Char)
  | [] => if afterDigit then .ok ([], []) else .error ⟨start, .number⟩
  | c :: rest =>
      if (digit? f.base c).isSome then
        if isClosed then .error ⟨offset, .number⟩
        else
          let isClosed := isFirst && c == '0' && !f.hasLeadingZeros
          (digitsFrom f start false isClosed true (offset + 1) rest).map fun (digits, rest) =>
            (c :: digits, rest)
      else if c == '_' && isFirst then .error ⟨offset, .number⟩
      else if c == '_' && afterDigit then digitsFrom f start false isClosed false (offset + 1) rest
      else if afterDigit then .ok ([], c :: rest)
      else .error ⟨start, .number⟩

/-- The numeral at the start of a word. -/
def read (f : Form) (word : Placed (List Char)) : Except PlacedFault Numeral :=
  match f.hasSign, word.value with
  | true, '-' :: rest =>
      (digitsFrom f word.offset true false false (word.offset + 1) rest).map fun (digits, rest) =>
        ⟨true, digits, rest⟩
  | _, text =>
      (digitsFrom f word.offset true false false word.offset text).map fun (digits, rest) =>
        ⟨false, digits, rest⟩

/-- The number that digits write to a base. -/
def valueOf (base : Nat) (digits : List Char) : Nat :=
  digits.foldl (fun n c => n * base + (hexValue? c).getD 0) 0

/-- The number of a numeral with its sign. -/
def value (n : Numeral) (base : Nat) : Int :=
  if n.isNegative then -(valueOf base n.digits) else valueOf base n.digits

end Numeral

/-- The whole number that a word writes, from `-2 ^ 63` to `2 ^ 63 - 1`. -/
def integer (f : Numeral.Form) (word : Placed (List Char)) : Except PlacedFault Int := do
  let n ← Numeral.read f word
  let value := n.value f.base
  if n.rest.isEmpty && -0x8000000000000000 ≤ value && value < 0x8000000000000000 then
    return value
  else .error ⟨word.offset, .number⟩

/-- The fraction of a numeral, the digits of another one behind a period, and an
exponent.  It is a fault at the offset if it is too great. -/
def fraction (offset : Nat) (whole : Numeral) (places : List Char) (exponent : Int) :
    Except PlacedFault Fraction :=
  let digits := Numeral.valueOf 10 (whole.digits ++ places)
  match (Decimal.mk digits (exponent - places.length)).nearest? with
  | some magnitude => .ok (.finite whole.isNegative magnitude)
  | none => .error ⟨offset, .number⟩

end Presence.ConfigText
