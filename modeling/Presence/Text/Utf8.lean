/-!
# UTF-8 with replacement

Well-formed bytes decode to their text.  In all others every ill-formed part is
replaced by U+FFFD, and a part extends as far as its bytes are the beginning of
a well-formed character.

A character of several bytes is read with a *pending* record of what may come
next.  Only the second byte of a character has a range narrower than that of
continuation bytes.  The narrow ranges keep out overlong forms, surrogates and
code points above U+10FFFF.
-/

namespace Presence.Utf8

/-- A character of which some bytes are still missing. -/
structure Pending where
  /-- The bits read so far. -/
  code : Nat
  /-- The number of missing bytes beside the next one. -/
  more : Nat
  /-- The least value of the next byte. -/
  low : Nat := 0x80
  /-- The largest value of the next byte. -/
  high : Nat := 0xBF

/-- What a byte amounts to. -/
inductive Reading where
  /-- The last byte of a character. -/
  | complete (c : Char)
  /-- A byte that others have to follow. -/
  | partially (p : Pending)
  /-- A byte that cannot stand here. -/
  | illFormed

/-- The reading of a byte at the start of a character. -/
def lead (b : Nat) : Reading :=
  if b < 0x80 then .complete (Char.ofNat b)
  else if b < 0xC2 then .illFormed
  else if b < 0xE0 then .partially { code := b - 0xC0, more := 0 }
  else if b = 0xE0 then .partially { code := 0, more := 1, low := 0xA0 }
  else if b = 0xED then .partially { code := 0xD, more := 1, high := 0x9F }
  else if b < 0xF0 then .partially { code := b - 0xE0, more := 1 }
  else if b = 0xF0 then .partially { code := 0, more := 2, low := 0x90 }
  else if b < 0xF4 then .partially { code := b - 0xF0, more := 2 }
  else if b = 0xF4 then .partially { code := 4, more := 2, high := 0x8F }
  else .illFormed

/-- The reading of a byte that follows others of its character. -/
def Pending.next (p : Pending) (b : Nat) : Reading :=
  if p.low ≤ b ∧ b ≤ p.high then
    let code := p.code * 64 + (b - 0x80)
    match p.more with
    | 0 => .complete (Char.ofNat code)
    | more + 1 => .partially { code, more }
  else .illFormed

/-- The character that stands for an ill-formed part. -/
def replacement : Char := Char.ofNat 0xFFFD

/-- The reading of a byte after a pending character, and whether the pending
character is thereby ill-formed, in which case the byte starts a character. -/
def follow (pending : Option Pending) (b : Nat) : Bool × Reading :=
  match pending with
  | none => (false, lead b)
  | some p =>
      match p.next b with
      | .illFormed => (true, lead b)
      | reading => (false, reading)

/-- The characters of bytes of which the pending character has been begun. -/
def replaceFrom (pending : Option Pending) : List UInt8 → List Char
  | [] => if pending.isSome then [replacement] else []
  | b :: rest =>
      let (broken, reading) := follow pending b.toNat
      (if broken then [replacement] else []) ++
        match reading with
        | .complete c => c :: replaceFrom none rest
        | .partially p => replaceFrom (some p) rest
        | .illFormed => replacement :: replaceFrom none rest

/-- The text of well-formed bytes. -/
def decode? (bytes : List UInt8) : Option String := String.fromUTF8? ⟨bytes.toArray⟩

/-- The text of bytes with every ill-formed part replaced. -/
def decodeReplacing (bytes : List UInt8) : String :=
  match decode? bytes with
  | some text => text
  | none => String.ofList (replaceFrom none bytes)

/-- The bytes of a text. -/
def encode (text : String) : List UInt8 := text.toUTF8.data.toList

end Presence.Utf8
