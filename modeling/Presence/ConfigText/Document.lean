import Presence.ConfigText.Number

/-!
# Configuration documents

A configuration text is a *document*, a row of sections.  A section has entries, one to
a line, and all sections but the first have a header in brackets, or in two pairs of
brackets if it is one of several of its name.  The first section counts only if it has
entries.

The readers of this module take lexemes from the front (`Reading`).  What comes after
the last well-formed lexeme is met only when one more is asked for, so the first fault
in reading order is the fault of the text.

Values nest.  The readers of values take a bound on how far they may go.  Two steps to
a lexeme and two at the end are enough, since every second step takes one.
-/

namespace Presence.ConfigText

/-- A section of a document. -/
structure Section where
  /-- The offset of the header. -/
  offset : Nat
  /-- The parts of the name in the header, none if there is no header. -/
  name : List (Placed String)
  /-- It is one of several of its name. -/
  isRepeated : Bool
  /-- The entries. -/
  entries : Entries

/-- The sections of a text in order. -/
abbrev Document := List Section

/-- A reader of lexemes. -/
abbrev Reading (α : Type) := StateT Lexemes (Except PlacedFault) α

namespace Reading

/-- Fails at an offset. -/
def fail {α : Type} (offset : Nat) (fault : Fault) : Reading α := throw ⟨offset, fault⟩

/-- The lexeme in front, or nothing at the end of the text. -/
def peek : Reading (Option (Placed Lexeme)) := do
  let ls ← get
  match ls.items, ls.fault with
  | item :: _, _ => return some item
  | [], some fault => throw fault
  | [], none => return none

/-- Takes the lexeme in front. -/
def next : Reading (Option (Placed Lexeme)) := do
  let item ← peek
  modify fun ls => { ls with items := ls.items.tail }
  return item

/-- Takes the lexeme in front if it is the given one. -/
def eat (lexeme : Lexeme) : Reading Bool := do
  match ← peek with
  | some item =>
      if item.value = lexeme then
        let _ ← next
        return true
      else return false
  | none => return false

/-- Fails because something else was expected. -/
def unexpected {α : Type} (expected : String) (found : Option (Placed Lexeme)) : Reading α := do
  match found with
  | some item => fail item.offset (.wanted expected item.value.describe)
  | none => fail (← get).size (.wanted expected "eof")

/-- Takes the given lexeme. -/
def expect (lexeme : Lexeme) : Reading Unit := do
  let item ← next
  if item.map Placed.value = some lexeme then return ()
  else unexpected lexeme.describe item

/-- Leaves out the lexemes in front that satisfy a condition. -/
def skip (condition : Lexeme → Bool) : Reading Unit :=
  modify fun ls => { ls with items := ls.items.dropWhile fun item => condition item.value }

/-- Leaves out blanks. -/
def skipBlanks : Reading Unit :=
  skip fun lexeme =>
    match lexeme with
    | .blanks _ => true
    | _ => false

/-- Leaves out blanks, comments and line ends. -/
def skipLines : Reading Unit :=
  skip fun lexeme =>
    match lexeme with
    | .blanks _ | .comment | .lineEnd => true
    | _ => false

/-- Takes the rest of a line, which is blank or a comment. -/
def endLine : Reading Unit := do
  skipBlanks
  let _ ← eat .comment
  match ← next with
  | none | some ⟨_, .lineEnd⟩ => return ()
  | item => unexpected "newline" item

/-! ## Keys -/

/-- Takes a part of a key. -/
def keyPart : Reading (Placed String) := do
  match ← next with
  | some ⟨offset, .word text⟩ => return ⟨offset, String.ofList text⟩
  | some ⟨offset, .quotes text isThreefold⟩ =>
      if isThreefold then fail offset .keyOfLines else return ⟨offset, text⟩
  | item => unexpected "a table key" item

/-- Takes further parts of a key, at most `count`, and the blanks around them. -/
def moreKeyParts : (count : Nat) → Reading (List (Placed String))
  | 0 => return []
  | count + 1 => do
      skipBlanks
      if ← eat .period then
        skipBlanks
        let part ← keyPart
        return part :: (← moreKeyParts count)
      else return []

/-- Takes a key and the blanks after it. -/
def key : Reading (List (Placed String)) := do
  let part ← keyPart
  return part :: (← moreKeyParts ((← get).items.length + 1))

/-! ## Numbers, dates and times -/

/-- Takes a word, or fails at an offset. -/
def word (offset : Nat) (fault : Fault) : Reading (Placed (List Char)) := do
  match ← next with
  | some ⟨offset, .word text⟩ => return ⟨offset, text⟩
  | _ => fail offset fault

/-- The offset of the lexeme in front, or of the end. -/
def offset : Reading Nat := do
  let ls ← get
  return (ls.items.head?.map Placed.offset).getD ls.size

/-- Takes the exponent that follows a numeral, of which `rest` is left in its word.  It
may have a sign of its own.  Faults are placed at the offset of the number. -/
def exponent (start : Nat) (rest : Placed (List Char)) : Reading Int := do
  match rest.value with
  | [] => return 0
  | mark :: digits =>
      if mark ≠ 'e' && mark ≠ 'E' then fail start .number
      else
        let n ←
          if digits.isEmpty then do
            let _ ← eat .plus
            let digits ← word start .number
            Numeral.read {} digits
          else Numeral.read Numeral.exponent ⟨rest.offset + 1, digits⟩
        if n.rest.isEmpty then return n.value 10 else fail start .number

/-- Takes what follows the whole part of a fraction. -/
def fractionAfter (whole : Placed (List Char)) : Reading (Placed Value) := do
  let n ← Numeral.read Numeral.whole whole
  let e ← exponent whole.offset ⟨whole.offset + (whole.value.length - n.rest.length), n.rest⟩
  return ⟨whole.offset, .fraction (← fraction whole.offset n [] e)⟩

/-- Takes what follows the period of a fraction. -/
def fractionAfterPeriod (whole : Placed (List Char)) : Reading (Placed Value) := do
  let places ← word (← offset) .number
  let n ← Numeral.read Numeral.whole whole
  if n.rest.isEmpty then
    let p ← Numeral.read {} places
    let e ← exponent whole.offset ⟨places.offset + (places.value.length - p.rest.length), p.rest⟩
    return ⟨places.offset, .fraction (← fraction whole.offset n p.digits e)⟩
  else fail whole.offset .number

/-- Takes what follows the first word of a number.  A fraction with a period is placed
at the word behind it. -/
def number (start : Nat) (first : Placed (List Char)) : Reading (Placed Value) := do
  match first.value with
  | '0' :: 'x' :: digits => based 16 digits
  | '0' :: 'o' :: digits => based 8 digits
  | '0' :: 'b' :: digits => based 2 digits
  | text =>
      if text.contains 'e' || text.contains 'E' then
        return ⟨start, (← fractionAfter first).value⟩
      else if ← eat .period then fractionAfterPeriod first
      else if text = ['i', 'n', 'f'] then return ⟨start, .fraction (.infinite false)⟩
      else if text = ['-', 'i', 'n', 'f'] then return ⟨start, .fraction (.infinite true)⟩
      else if text = ['n', 'a', 'n'] || text = ['-', 'n', 'a', 'n'] then
        return ⟨start, .fraction .undefined⟩
      else return ⟨start, .integer (← integer Numeral.whole first)⟩
where
  /-- A whole number to a base. -/
  based (base : Nat) (digits : List Char) : Reading (Placed Value) := do
    return ⟨start, .integer (← integer { base } ⟨first.offset + 2, digits⟩)⟩

/-- Takes what follows the first word of a date or a time, after a colon if `isTime`.
Only its rough form matters. -/
def moment (start : Nat) (isTime : Bool) : Reading (Placed Value) := do
  modify fun ls =>
    match ls.items with
    | ⟨_, .blanks true⟩ :: ⟨_, .word _⟩ :: items => { ls with items }
    | _ => ls
  if isTime || (← eat .colon) then
    let _ ← word start .moment
    expect .colon
    let _ ← word start .moment
    if ← eat .period then
      let _ ← word start .moment
    if ← eat .plus then
      let _ ← word start .moment
    if ← eat .colon then
      let _ ← word start .moment
  return ⟨start, .moment⟩

/-- The word begins a date: it has a letter between date and time, or a hyphen that is
neither a sign in front nor the sign of an exponent. -/
def beginsDate (text : List Char) : Bool :=
  text.contains 'T' || text.contains 't' ||
    ((text.drop 1).contains '-' && !(text.zip text.tail).any fun (c, d) =>
      (c == 'e' || c == 'E') && d == '-')

/-- Takes what follows a word that is a value. -/
def wordValue (first : Placed (List Char)) : Reading (Placed Value) := do
  let text := first.value
  if text = ['t', 'r', 'u', 'e'] then return ⟨first.offset, .boolean true⟩
  else if text = ['f', 'a', 'l', 's', 'e'] then return ⟨first.offset, .boolean false⟩
  else if text.head?.any (fun c => c == '-' || c.isDigit) ||
      text = ['i', 'n', 'f'] || text = ['n', 'a', 'n'] then
    if beginsDate text then moment first.offset false
    else if ← eat .colon then moment first.offset true
    else number first.offset first
  else fail first.offset .unquoted

/-! ## Values -/

mutual

/-- Takes a value. -/
def value : (bound : Nat) → Reading (Placed Value)
  | 0 => do fail (← get).size .valueMissing
  | bound + 1 => do
      match ← next with
      | none => fail (← get).size .valueMissing
      | some ⟨start, .quotes text _⟩ => return ⟨start, .text text⟩
      | some ⟨start, .word text⟩ => wordValue ⟨start, text⟩
      | some ⟨start, .plus⟩ => do
          let first ← word (← offset) .number
          number start first
      | some ⟨start, .openBrace⟩ => do
          skipBlanks
          if ← eat .closeBrace then return ⟨start, .table []⟩
          else return ⟨start, .table (← entries bound [])⟩
      | some ⟨start, .openBracket⟩ => return ⟨start, .sequence (← items bound)⟩
      | item => unexpected "a value" item

/-- Takes the entries of a table in braces after those that are given. -/
def entries : (bound : Nat) → Entries → Reading Entries
  | 0, given => return given
  | bound + 1, given => do
      let parts ← key
      expect .equals
      skipBlanks
      let v ← value bound
      let given ← given.add parts v
      skipBlanks
      if ← eat .closeBrace then return given
      else
        expect .comma
        skipBlanks
        entries bound given

/-- Takes the members of a sequence. -/
def items : (bound : Nat) → Reading (List (Placed Value))
  | 0 => return []
  | bound + 1 => do
      skipLines
      if ← eat .closeBracket then return []
      else
        let v ← value bound
        skipLines
        if ← eat .comma then return v :: (← items bound)
        else
          expect .closeBracket
          return [v]

end

/-! ## Lines -/

/-- Takes a value that nests as far as there are lexemes. -/
def anyValue : Reading (Placed Value) := do value (2 * (← get).items.length + 2)

/-- Takes a line with an entry after those that are given. -/
def entryLine (given : Entries) : Reading Entries := do
  let parts ← key
  expect .equals
  skipBlanks
  let v ← anyValue
  endLine
  given.add parts v

/-- Takes a line with a header. -/
def headerLine : Reading Section := do
  let start ← offset
  expect .openBracket
  let isRepeated ← eat .openBracket
  skipBlanks
  let name ← key
  expect .closeBracket
  if isRepeated then expect .closeBracket
  endLine
  return ⟨start, name, isRepeated, []⟩

/-- Takes lines, at most `count`, with the rest of a section first. -/
def sections : (count : Nat) → Section → Reading (List Section)
  | 0, current => return [current]
  | count + 1, current => do
      skipLines
      match ← peek with
      | none => return [current]
      | some ⟨_, .openBracket⟩ => do
          let following ← headerLine
          return current :: (← sections count following)
      | some _ => do
          let entries ← entryLine current.entries
          sections count { current with entries }

end Reading

/-- The document that a text writes. -/
def Document.ofText (text : String) : Except PlacedFault Document := do
  let lexemes := Lexemes.ofText text
  let (sections, _) ← (Reading.sections (lexemes.items.length + 1) ⟨0, [], false, []⟩).run lexemes
  match sections with
  | ⟨_, _, _, []⟩ :: sections => return sections
  | sections => return sections

end Presence.ConfigText
