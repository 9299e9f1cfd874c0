/-!
# Blanks

A character is *blank* if it has the Unicode property `White_Space`.  The table
lists its twenty-five code points as ranges.  Trimming and splitting into
fields go by this property.
-/

namespace Presence

/-- The ranges of the code points of blanks, both ends included. -/
def blankRanges : List (Nat × Nat) :=
  [(0x9, 0xD), (0x20, 0x20), (0x85, 0x85), (0xA0, 0xA0), (0x1680, 0x1680), (0x2000, 0x200A),
    (0x2028, 0x2029), (0x202F, 0x202F), (0x205F, 0x205F), (0x3000, 0x3000)]

/-- The character is blank. -/
def isBlankChar (c : Char) : Bool :=
  blankRanges.any fun (first, last) => first ≤ c.toNat && c.toNat ≤ last

/-- A text without the blanks at its end. -/
def trimEnd (text : List Char) : List Char := (text.reverse.dropWhile isBlankChar).reverse

/-- A text without the blanks at its start and at its end. -/
def trim (text : List Char) : List Char := trimEnd (text.dropWhile isBlankChar)

/-- The field of a run of characters, given last character first.  No characters
make no field. -/
def fieldOf : List Char → List (List Char)
  | [] => []
  | run => [run.reverse]

/-- The fields of a text, where `run` is the field in progress, its last
character first. -/
def fieldsFrom (run : List Char) : List Char → List (List Char)
  | [] => fieldOf run
  | c :: rest => if isBlankChar c then fieldOf run ++ fieldsFrom [] rest else fieldsFrom (c :: run) rest

/-- The longest runs of characters that are not blank. -/
def fields (text : List Char) : List (List Char) := fieldsFrom [] text

end Presence
