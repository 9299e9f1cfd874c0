import Presence.Checker.Basic
import Presence.Expression.Parser

/-!
# Listings

A *listing* has one line `file: condition` per source file.  Blank lines do not
count, and a line without a colon is skipped with a notice.  A file whose
condition is marked as invalid, or cannot be parsed, is kept without one.

*Pruning* a listing finds the files whose condition contradicts the feature
model.  A file without a condition is never pruned, and neither is one whose
condition names an unknown variable that the policy takes for a fault.  All other
faults of a check stop the pruning.
-/

namespace Presence

/-- A source file with the condition under which it is compiled. -/
structure Entry where
  /-- The file. -/
  file : String
  /-- The condition, if the listing has a usable one. -/
  condition : Option Formula
  deriving DecidableEq, Repr

/-- A line that is no text. -/
structure InvalidText where
  deriving DecidableEq, Repr

/-- The wording of the fault that a line is no text. -/
def InvalidText.message (_ : InvalidText) : String := "stream did not contain valid UTF-8"

namespace Listing

/-! ## Lines -/

/-- The lines of bytes without their line feeds and without a carriage return
before one; `line` is the line in progress, its last byte first. -/
def linesFrom (line : List UInt8) : List UInt8 → List (List UInt8)
  | [] => if line.isEmpty then [] else [line.reverse]
  | b :: rest =>
      if b = 10 then
        (match line with
          | 13 :: line => line.reverse
          | line => line.reverse) :: linesFrom [] rest
      else linesFrom (b :: line) rest

/-- What marks a condition that could not be computed. -/
def invalidMark : String := "InvalidExpression()"

/-- The mark occurs in the text. -/
def contains (mark : List Char) : List Char → Bool
  | [] => mark.isEmpty
  | c :: rest => mark.isPrefixOf (c :: rest) || contains mark rest

/-- The condition of a file. -/
def condition (p : Parser) (file text : String) : Noted (Option Formula) :=
  if contains invalidMark.toList text.toList then ⟨[.invalidCondition file], none⟩
  else
    match p.parse text with
    | .ok f => ⟨[], some f⟩
    | .error cause => ⟨[.unreadableCondition text cause], none⟩

/-- The entry of a line. -/
def entryOfLine (p : Parser) (number : Nat) (line : String) : Noted (Option Entry) :=
  let text := line.toList
  if text.all isBlankChar then ⟨[], none⟩
  else
    match text.dropWhile (· != ':') with
    | [] => ⟨[.missingSeparator number], none⟩
    | _ :: rest =>
        let file := String.ofList (text.takeWhile (· != ':'))
        let found := condition p file (String.ofList (trim rest))
        ⟨found.notices, some ⟨file, found.result⟩⟩

/-- The entries of lines, of which the first has the given number. -/
def entriesFrom (p : Parser) (number : Nat) :
    List (List UInt8) → Noted (Except InvalidText (List Entry))
  | [] => ⟨[], .ok []⟩
  | line :: lines =>
      match Utf8.decode? line with
      | none => ⟨[], .error {}⟩
      | some text =>
          let first := entryOfLine p number text
          let rest := entriesFrom p (number + 1) lines
          ⟨first.notices ++ rest.notices, rest.result.map (first.result.toList ++ ·)⟩

/-- Reads a listing. -/
def read (p : Parser) (bytes : List UInt8) : Noted (Except InvalidText (List Entry)) :=
  let found := entriesFrom p 1 (linesFrom [] bytes)
  match found.result with
  | .error cause => ⟨found.notices, .error cause⟩
  | .ok entries => ⟨found.notices ++ [.listingRead entries.length], .ok entries⟩

/-! ## Pruning -/

/-- An entry if its condition contradicts the model. -/
def contradicting (engine : Engine) (c : Checker) (policy : Policy) (e : Entry) :
    Noted (Except CheckError (List Entry)) :=
  match e.condition with
  | none => ⟨[], .ok []⟩
  | some f =>
      let checked := c.isSatisfiable engine f policy
      Noted.after checked.notices <|
        match checked.result with
        | .ok true => ⟨[], .ok []⟩
        | .ok false => ⟨[.unsatisfiable e.file], .ok [e]⟩
        | .error (.unknownName cause) => ⟨[.kept e.file cause], .ok []⟩
        | .error cause => ⟨[], .error cause⟩

/-- The entries whose conditions contradict the model.  Each entry has an engine of its
own, the first one the engine 0. -/
def prune (engines : Nat → Engine) (c : Checker) (policy : Policy) :
    List Entry → Noted (Except CheckError (List Entry))
  | [] => ⟨[], .ok []⟩
  | e :: entries =>
      let first := contradicting (engines 0) c policy e
      match first.result with
      | .error cause => ⟨first.notices, .error cause⟩
      | .ok found =>
          let rest := prune (fun n => engines (n + 1)) c policy entries
          ⟨first.notices ++ rest.notices, rest.result.map (found ++ ·)⟩

end Listing

end Presence
