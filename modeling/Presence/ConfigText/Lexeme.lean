import Presence.ConfigText.Fault

/-!
# Lexemes of configuration texts

A configuration text is cut into *lexemes*: words, quotes, signs, comments, blanks and
line ends.  A carriage return in front of a line feed is part of the line end, and a
byte order mark at the start of the text is left out.

Quotes are single or double, and single or threefold.  Double quotes have escapes.
Threefold quotes hold line ends, and lose one at their start.  They are read by a
machine that takes one character at a time (`Quotes.step`).

The lexemes of a text go as far as they are well formed.  What comes after them is the
end of the text or a fault (`Lexemes`), which is of interest only to those who want one
more lexeme.
-/

namespace Presence.ConfigText

/-! ## Characters -/

/-- The characters of a text with their offsets, from a given one on.  A line feed
after a carriage return takes its place. -/
def placedFrom (offset : Nat) : List Char → List (Placed Char)
  | [] => []
  | '\r' :: '\n' :: rest => ⟨offset, '\n'⟩ :: placedFrom (offset + 2) rest
  | c :: rest => ⟨offset, c⟩ :: placedFrom (offset + c.utf8Size) rest

/-- The character that some texts begin with and that says nothing. -/
def byteOrderMark : Char := Char.ofNat 0xFEFF

/-- The characters of a text with their offsets. -/
def placedChars (text : List Char) : List (Placed Char) :=
  match text with
  | [] => []
  | c :: rest => if c = byteOrderMark then placedFrom c.utf8Size rest else placedFrom 0 text

/-- A space or a tab. -/
def isBlank (c : Char) : Bool := c == ' ' || c == '\t'

/-- A character of a word. -/
def isWordChar (c : Char) : Bool := c.isAlphanum || c == '_' || c == '-'

/-- A character of a comment. -/
def isCommentChar (c : Char) : Bool := c == '\t' || '\x20' ≤ c

/-- A character that may stand in quotes as it is. -/
def isQuotable (c : Char) : Bool := c == '\t' || ('\x20' ≤ c && c != '\x7f')

/-! ## Quotes -/

/-- What quotes are like. -/
structure Quotes where
  /-- The quote. -/
  mark : Char
  /-- It is threefold. -/
  isThreefold : Bool
  /-- The offset of the first quote. -/
  offset : Nat

/-- What is read of quotes. -/
inductive QuotesState where
  /-- Characters that stand for themselves. -/
  | plain
  /-- The given number of quotes that may belong to the end. -/
  | marks (count : Nat)
  /-- A backslash. -/
  | escape
  /-- The digits of a code point, of which the given number is left. -/
  | digits (offset left code : Nat)
  /-- Blanks between a backslash and a line end. -/
  | toLineEnd (escaped : Placed Char)
  /-- Blanks and line ends after an escaped line end. -/
  | indentation

/-- How the reading of quotes goes on after a character. -/
inductive QuotesStep where
  /-- Characters are added and a state follows. -/
  | more (added : List Char) (state : QuotesState)
  /-- Characters are added and the quotes end with the character. -/
  | last (added : List Char)
  /-- Characters are added and the quotes have ended before the character. -/
  | past (added : List Char)

/-- The character that an escape of one letter stands for. -/
def escaped? : Char → Option Char
  | 'b' => some '\x08'
  | 't' => some '\t'
  | 'n' => some '\n'
  | 'f' => some '\x0c'
  | 'r' => some '\r'
  | '"' => some '"'
  | '\\' => some '\\'
  | _ => none

/-- The value of a digit to the base 16. -/
def hexValue? (c : Char) : Option Nat :=
  if '0' ≤ c && c ≤ '9' then some (c.toNat - '0'.toNat)
  else if 'a' ≤ c && c ≤ 'f' then some (c.toNat - 'a'.toNat + 10)
  else if 'A' ≤ c && c ≤ 'F' then some (c.toNat - 'A'.toNat + 10)
  else none

namespace Quotes

/-- The step at a character that follows characters which stand for themselves, after
`added`. -/
def plainStep (q : Quotes) (added : List Char) (c : Placed Char) : Except PlacedFault QuotesStep :=
  if c.value = '\n' then
    if q.isThreefold then .ok (.more (added ++ ['\n']) .plain)
    else .error ⟨c.offset, .lineEndInQuotes⟩
  else if c.value = q.mark then
    if q.isThreefold then .ok (.more added (.marks 1)) else .ok (.last added)
  else if c.value = '\\' && q.mark == '"' then .ok (.more added .escape)
  else if isQuotable c.value then .ok (.more (added ++ [c.value]) .plain)
  else .error ⟨c.offset, .characterInQuotes c.value⟩

/-- The step at a character after a backslash. -/
def escapeStep (q : Quotes) (c : Placed Char) : Except PlacedFault QuotesStep :=
  match escaped? c.value with
  | some d => .ok (.more [d] .plain)
  | none =>
      if c.value = 'u' then .ok (.more [] (.digits c.offset 4 0))
      else if c.value = 'U' then .ok (.more [] (.digits c.offset 8 0))
      else if q.isThreefold && c.value = '\n' then .ok (.more [] .indentation)
      else if q.isThreefold && isBlank c.value then .ok (.more [] (.toLineEnd c))
      else .error ⟨c.offset, .unknownEscape c.value⟩

/-- The step at a digit of a code point, of which `left` more follow. -/
def digitStep (offset left code : Nat) (c : Placed Char) : Except PlacedFault QuotesStep :=
  match hexValue? c.value with
  | none => .error ⟨c.offset, .digitWanted c.value⟩
  | some d =>
      let code := 16 * code + d
      if left ≠ 0 then .ok (.more [] (.digits offset left code))
      else if code.isValidChar then .ok (.more [Char.ofNat code] .plain)
      else .error ⟨offset, .noCharacter code⟩

/-- The step at a character.  Up to two quotes in front of a threefold one belong to
the text. -/
def step (q : Quotes) (state : QuotesState) (c : Placed Char) : Except PlacedFault QuotesStep :=
  match state with
  | .plain => q.plainStep [] c
  | .marks count =>
      if c.value = q.mark then
        if count = 4 then .ok (.last [q.mark, q.mark]) else .ok (.more [] (.marks (count + 1)))
      else if count < 3 then q.plainStep (List.replicate count q.mark) c
      else .ok (.past (List.replicate (count - 3) q.mark))
  | .escape => q.escapeStep c
  | .digits offset left code => digitStep offset (left - 1) code c
  | .toLineEnd first =>
      if c.value = '\n' then .ok (.more [] .indentation)
      else if isBlank c.value then .ok (.more [] state)
      else .error ⟨first.offset, .unknownEscape first.value⟩
  | .indentation =>
      if c.value = '\n' || isBlank c.value then .ok (.more [] state) else q.plainStep [] c

/-- The text in quotes from a state on, with what follows them. -/
def read (q : Quotes) (state : QuotesState) :
    List (Placed Char) → Except PlacedFault (List Char × List (Placed Char))
  | [] =>
      match state with
      | .marks count =>
          if count < 3 then .error ⟨q.offset, .openQuotes⟩
          else .ok (List.replicate (count - 3) q.mark, [])
      | _ => .error ⟨q.offset, .openQuotes⟩
  | c :: rest =>
      match q.step state c with
      | .error fault => .error fault
      | .ok (.more added state) =>
          (q.read state rest).map fun (text, rest) => (added ++ text, rest)
      | .ok (.last added) => .ok (added, rest)
      | .ok (.past added) => .ok (added, c :: rest)

end Quotes

/-! ## Lexemes -/

/-- A lexeme. -/
inductive Lexeme where
  /-- Letters, digits, underscores and hyphens. -/
  | word (text : List Char)
  /-- A text in quotes, which are single or threefold. -/
  | quotes (text : String) (isThreefold : Bool)
  /-- Blanks, which are one space or something else. -/
  | blanks (isSpace : Bool)
  /-- A comment. -/
  | comment
  /-- A line end. -/
  | lineEnd
  /-- The sign between a key and its value. -/
  | equals
  /-- The sign between the parts of a key. -/
  | period
  /-- The sign between values. -/
  | comma
  /-- The sign between the parts of a time. -/
  | colon
  /-- A sign of numbers. -/
  | plus
  /-- The start of a table. -/
  | openBrace
  /-- The end of a table. -/
  | closeBrace
  /-- The start of a sequence or a header. -/
  | openBracket
  /-- The end of a sequence or a header. -/
  | closeBracket
  deriving DecidableEq, Repr

/-- What a lexeme is called in messages. -/
def Lexeme.describe : Lexeme → String
  | word _ => "an identifier"
  | quotes _ false => "a string"
  | quotes _ true => "a multiline string"
  | blanks _ => "whitespace"
  | comment => "a comment"
  | lineEnd => "a newline"
  | equals => "an equals"
  | period => "a period"
  | comma => "a comma"
  | colon => "a colon"
  | plus => "a plus"
  | openBrace => "a left brace"
  | closeBrace => "a right brace"
  | openBracket => "a left bracket"
  | closeBracket => "a right bracket"

/-- The lexeme of one sign. -/
def sign? : Char → Option Lexeme
  | '\n' => some .lineEnd
  | '=' => some .equals
  | '.' => some .period
  | ',' => some .comma
  | ':' => some .colon
  | '+' => some .plus
  | '\x7b' => some .openBrace
  | '\x7d' => some .closeBrace
  | '[' => some .openBracket
  | ']' => some .closeBracket
  | _ => none

/-- The lexeme that begins with a quote, with what follows it. -/
def quotesAt (c : Placed Char) (rest : List (Placed Char)) :
    Except PlacedFault (Lexeme × List (Placed Char)) :=
  match rest.span fun d => d.value = c.value with
  | ([_], rest) => .ok (.quotes "" false, rest)
  | ([], _) =>
      (Quotes.read ⟨c.value, false, c.offset⟩ .plain rest).map fun (text, rest) =>
        (.quotes (String.ofList text) false, rest)
  | _ =>
      let body :=
        match rest.drop 2 with
        | ⟨_, '\n'⟩ :: body => body
        | body => body
      (Quotes.read ⟨c.value, true, c.offset⟩ .plain body).map fun (text, rest) =>
        (.quotes (String.ofList text) true, rest)

/-- The lexeme that begins with a character, with what follows it. -/
def lexemeAt (c : Placed Char) (rest : List (Placed Char)) :
    Except PlacedFault (Lexeme × List (Placed Char)) :=
  match sign? c.value with
  | some sign => .ok (sign, rest)
  | none =>
      if isBlank c.value then
        let (blanks, rest) := rest.span fun d => isBlank d.value
        .ok (.blanks (c.value = ' ' && blanks.isEmpty), rest)
      else if c.value = '#' then .ok (.comment, rest.dropWhile fun d => isCommentChar d.value)
      else if c.value = '"' || c.value = '\'' then quotesAt c rest
      else if isWordChar c.value then
        let (word, rest) := rest.span fun d => isWordChar d.value
        .ok (.word (c.value :: word.map Placed.value), rest)
      else .error ⟨c.offset, .unexpectedCharacter c.value⟩

/-- The lexemes of a text, as far as they are well formed. -/
structure Lexemes where
  /-- The lexemes in order. -/
  items : List (Placed Lexeme)
  /-- The fault that comes after them, unless the text ends there. -/
  fault : Option PlacedFault
  /-- The number of bytes of the text. -/
  size : Nat

/-- The lexemes of characters, at most `count` of them, with the fault that comes after
them. -/
def lexemesFrom : (count : Nat) → List (Placed Char) → List (Placed Lexeme) × Option PlacedFault
  | 0, _ | _, [] => ([], none)
  | count + 1, c :: rest =>
      match lexemeAt c rest with
      | .error fault => ([], some fault)
      | .ok (lexeme, rest) =>
          let (items, fault) := lexemesFrom count rest
          (⟨c.offset, lexeme⟩ :: items, fault)

/-- The lexemes of a text.  There are no more of them than characters. -/
def Lexemes.ofText (text : String) : Lexemes :=
  let chars := placedChars text.toList
  let (items, fault) := lexemesFrom chars.length chars
  ⟨items, fault, text.utf8ByteSize⟩

end Presence.ConfigText
