import Presence.Dimacs.Error
import Presence.NameTable
import Presence.Text.Blank
import Presence.Text.Count
import Presence.Text.Utf8

/-!
# Reading DIMACS texts

A DIMACS text holds clauses as numerals, each clause ended by the numeral 0,
and three kinds of lines.

* The *problem line* `p cnf V C` declares the numbers of variables and clauses.
* A *naming comment* `c N NAME` gives the variable `N` a name.  It counts only
  before the problem line and before the first numeral.
* Every other line that begins with `c` is a *remark* and is skipped.

The reader takes one byte at a time (`Reader.step`), so it does not matter how
the bytes are cut into chunks.  A fault stops it: the state stays as it was at
the fault, and later bytes change nothing.
-/

namespace Presence

/-- The counts of a problem line. -/
structure Header where
  /-- The declared number of variables. -/
  variableCount : Nat
  /-- The declared number of clauses. -/
  clauseCount : Nat
  deriving DecidableEq, Repr

namespace Dimacs

/-! ## States -/

/-- What has been read of a numeral. -/
inductive Numeral where
  /-- Nothing. -/
  | absent
  /-- A minus sign. -/
  | minus
  /-- At least one digit, perhaps after a minus sign. -/
  | digits (negative : Bool) (value : Nat)
  deriving DecidableEq, Repr

/-- What the reader is in the middle of. -/
inductive Mode where
  /-- Nothing but line ends have been read since the last line. -/
  | lineStart
  /-- The numerals of clauses. -/
  | clauses (pending : Numeral)
  /-- A comment that may name a variable, with its bytes after the `c`, the last
  byte first. -/
  | naming (text : List UInt8)
  /-- A comment that names nothing. -/
  | remark
  /-- The problem line, with its bytes, the last byte first. -/
  | problem (text : List UInt8)
  deriving DecidableEq, Repr

end Dimacs

open Dimacs

/-- The state of reading a DIMACS text. -/
structure Reader where
  /-- What is put before every name. -/
  stem : String := ""
  /-- The clauses that have not been taken yet. -/
  cnf : Cnf := .ofCount 0
  /-- The names that have not been taken yet. -/
  names : NameTable := .empty
  /-- The counts of the problem line. -/
  header : Option Header := none
  /-- The literals of the clause in progress, the last literal first. -/
  literals : List Literal := []
  /-- The number of clauses read, taken or not. -/
  clauseCount : Nat := 0
  /-- What is being read. -/
  mode : Mode := .lineStart
  /-- Comments may still name variables. -/
  namesOpen : Bool := true
  /-- The number of the line, counted from 1. -/
  line : Nat := 1
  /-- The fault that stopped the reader. -/
  fault : Option DimacsError := none

namespace Reader

/-- Stops with a fault. -/
def stop (r : Reader) (cause : DimacsError) : Reader := { r with fault := some cause }

/-! ## Numerals -/

/-- Ends a numeral.  The numeral 0 ends the clause, any other is a literal of
it, and a lone minus sign is nothing. -/
def endNumeral (r : Reader) : Numeral → Reader
  | .absent | .minus => r
  | .digits negative value =>
      if value = 0 then
        { r with
          cnf := r.cnf.add r.literals.reverse
          literals := []
          clauseCount := r.clauseCount + 1 }
      else { r with literals := ⟨value, !negative⟩ :: r.literals }

/-- Reads a digit of a numeral. -/
def digit (r : Reader) (negative : Bool) (value d : Nat) : Reader :=
  let r := { r with namesOpen := false }
  if value * 10 + d ≤ largestVariable then
    { r with mode := .clauses (.digits negative (value * 10 + d)) }
  else
    { r with mode := .clauses (.digits negative value) }.stop (.numberTooLarge r.line value d)

/-! ## Lines of text -/

/-- The number and the name of a naming comment, from its text after the `c`.
The number follows one space, and one more space divides it from the name. -/
def naming? : List Char → Option (List Char × List Char)
  | ' ' :: text =>
      let number := text.takeWhile (· != ' ')
      let name := trimEnd ((text.dropWhile (· != ' ')).drop 1)
      if number.isEmpty || name.isEmpty || !number.all Count.isDigit then none
      else some (number, name)
  | _ => none

/-- Ends a comment that may name a variable. -/
def endNaming (r : Reader) (text : List UInt8) : Reader :=
  let r := { r with mode := .lineStart }
  match naming? (Utf8.decodeReplacing text.reverse).toList with
  | none => r
  | some (digits, name) =>
      let name := r.stem ++ String.ofList name
      let number := Count.ofDigits digits
      if number > largestVariable then
        r.stop (.numberTooLarge r.line ((Count.unsigned? digits.dropLast).getD Count.largest)
          (Count.ofDigits (digits.drop (digits.length - 1))))
      else if number = 0 then r.stop (.invalidNaming r.line name)
      else { r with names := r.names.insert name number }

/-- The counts of a problem line. -/
def header? : List Char → Option Header
  | 'p' :: ' ' :: text =>
      match fields text with
      | [format, variableField, clauseField] =>
          if format = "cnf".toList then
            match Count.read? variableField, Count.read? clauseField with
            | some v, some c => some ⟨v, c⟩
            | _, _ => none
          else none
      | _ => none
  | _ => none

/-- Ends the problem line. -/
def endProblem (r : Reader) (text : List UInt8) : Reader :=
  let r := { r with mode := .lineStart }
  let text := Utf8.decodeReplacing text.reverse
  match header? text.toList with
  | none => r.stop (.invalidHeader r.line text)
  | some header =>
      if header.variableCount > largestVariable then
        r.stop (.numberTooLarge r.line (header.variableCount / 10) (header.variableCount % 10))
      else { r with header := some header, cnf := r.cnf.reserve header.variableCount }

/-! ## Steps -/

/-- A byte that ends a line. -/
def isLineEnd (b : UInt8) : Bool := b == 10 || b == 13

/-- The value of a byte that is a digit. -/
def digit? (b : UInt8) : Option Nat := if 48 ≤ b ∧ b ≤ 57 then some (b.toNat - 48) else none

/-- Reads a byte outside of lines of text, after a numeral of which `pending` has
been read, or at the start of a line if `atStart`. -/
def clauseByte (r : Reader) (atStart : Bool) (pending : Numeral) (b : UInt8) : Reader :=
  match digit? b, pending with
  | some d, .absent => r.digit false 0 d
  | some d, .minus => r.digit true 0 d
  | some d, .digits negative value => r.digit negative value d
  | none, _ =>
      if b = 45 ∧ pending = .absent then { r with mode := .clauses .minus, namesOpen := false }
      else if (b = 32 ∨ isLineEnd b) ∧ pending ≠ .minus then
        { r.endNumeral pending with mode := if b = 32 then .clauses .absent else .lineStart }
      else if b = 99 ∧ atStart then { r with mode := if r.namesOpen then .naming [] else .remark }
      else if b = 112 ∧ atStart ∧ r.header = none then
        { r with mode := .problem [b], namesOpen := false }
      else r.stop (.unexpectedInput r.line (Char.ofNat b.toNat))

/-- Reads a byte according to the mode. -/
def modeByte (r : Reader) (b : UInt8) : Reader :=
  match r.mode with
  | .lineStart => r.clauseByte true .absent b
  | .clauses pending => r.clauseByte false pending b
  | .naming text => if isLineEnd b then r.endNaming text else { r with mode := .naming (b :: text) }
  | .remark => if isLineEnd b then { r with mode := .lineStart } else r
  | .problem text =>
      if isLineEnd b then r.endProblem text else { r with mode := .problem (b :: text) }

/-- Reads a byte.  A line feed counts as part of the line that it begins. -/
def step (r : Reader) (b : UInt8) : Reader :=
  if r.fault.isSome then r
  else modeByte (if b = 10 then { r with line := r.line + 1 } else r) b

/-! ## Calls -/

/-- Reads the bytes of a chunk. -/
def feed (r : Reader) (chunk : List UInt8) : Reader × Except DimacsError Unit :=
  if r.fault.isSome then (r, .error .previousError)
  else
    let r := chunk.foldl step r
    (r, match r.fault with
      | none => .ok ()
      | some cause => .error cause)

/-- Ends what is being read, as the end of the text does. -/
def endMode (r : Reader) : Reader :=
  match r.mode with
  | .lineStart => r
  | .clauses pending => { r.endNumeral pending with mode := .clauses .absent }
  | .naming text => r.endNaming text
  | .remark => { r with mode := .lineStart }
  | .problem text => r.endProblem text

/-- Ends the text.  The numbers of all clauses are then marked as used. -/
def finish (r : Reader) : Reader × Except DimacsError Unit :=
  let ended := r.endMode
  match r.fault, ended.fault with
  | none, some cause => (ended, .error cause)
  | _, _ =>
      if ended.literals.isEmpty then
        ({ ended with names := ended.names.reserve ended.cnf.variableCount }, .ok ())
      else (ended, .error (.unterminatedClause ended.line))

/-- Compares what was read with the counts of the problem line. -/
def checkHeader (r : Reader) : Except DimacsError Unit :=
  match r.header with
  | none => .ok ()
  | some header =>
      if r.cnf.variableCount ≠ header.variableCount then
        .error (.variableCount r.cnf.variableCount header.variableCount)
      else if r.clauseCount ≠ header.clauseCount then
        .error (.clauseCount r.clauseCount header.clauseCount)
      else .ok ()

/-- Takes the clauses out.  The number of variables stays known. -/
def takeCnf (r : Reader) : Cnf × Reader :=
  (r.cnf, { r with cnf := .ofCount r.cnf.variableCount })

/-- Takes the names out. -/
def takeNames (r : Reader) : NameTable × Reader := (r.names, { r with names := .empty })

/-! ## Whole texts -/

/-- Reads a text from a source that gives a chunk or a failure at a time and
ends with an empty chunk at the latest.  After every chunk and once more after
the end, `visit` may look at the reader, take something out of it, or fail. -/
def readSource {m : Type → Type} {ε : Type} [Monad m] [MonadExcept ε m]
    (fault : DimacsError → ε) (visit : Reader → m Reader) (r : Reader) :
    List (Except ε (List UInt8)) → m Reader
  | .error cause :: _ => throw cause
  | .ok (b :: chunk) :: source =>
      match r.feed (b :: chunk) with
      | (_, .error cause) => throw (fault cause)
      | (r, .ok ()) => do readSource fault visit (← visit r) source
  | _ =>
      match r.finish with
      | (_, .error cause) => throw (fault cause)
      | (r, .ok ()) => do
          let r ← visit r
          match r.checkHeader with
          | .error cause => throw (fault cause)
          | .ok () => pure r

/-- Reads a whole text and checks it against its problem line. -/
def readAll (r : Reader) (bytes : List UInt8) : Except DimacsError Reader :=
  readSource id pure r [.ok bytes]

end Reader

end Presence
