import Presence.Proofs.Dimacs.Contents
import Presence.Proofs.Except

/-!
# The grammar of clauses

Outside of comments and of the problem line an accepted text should hold nothing but numerals
with blanks and line ends between them, and the last numeral should be a 0 (`IsClauseText`).

A reader that comes to a blank or a line end after a lone minus sign stops there, but at the end
of the text it does not look.  So a text with a minus sign as its last word is accepted as well.
`Reader.isClauseText_iff` says that there is no other exception, and that such a text is as it
should be once its last word is left out.
-/

namespace Presence

open Dimacs

/-- The words are numerals, and the last one is a 0. -/
def Dimacs.IsClauseText (words : List (List UInt8)) : Prop :=
  (∀ w ∈ words, IsNumeral w) ∧ ∀ w ∈ words.getLast?, wordValue w = 0

instance : DecidablePred IsClauseText := fun words =>
  inferInstanceAs (Decidable ((∀ w ∈ words, IsNumeral w) ∧ ∀ w ∈ words.getLast?, wordValue w = 0))

namespace Reader

variable {stem : String} {bytes : List UInt8} {r r' : Reader} {lines rest ws : List (List UInt8)}

/-- After one problem line there is no other. -/
theorem Reads.countP_problem_le (h : Reads r lines rest r') :
    lines.countP (·.head? == some 112) ≤ if r.header = none then 1 else 0 := by
  induction h with
  | @last r r' n line rest h =>
      rcases h.header with ⟨hproblem, hnone, -⟩ | ⟨hproblem, -⟩
      · simp [hproblem, hnone]
      · simp [hproblem]
  | @cons r r' r'' n line lines rest h hs ih =>
      rcases h.header with ⟨hproblem, hnone, h, -, heq⟩ | ⟨hproblem, heq⟩
      · rw [heq, if_neg (by simp)] at ih
        rw [List.countP_cons_of_pos (by simp [hproblem]), if_pos hnone]
        omega
      · rw [heq] at ih
        rwa [List.countP_cons_of_neg (by simp [hproblem])]

/-- Words that leave no clause in progress are the text of clauses. -/
theorem isClauseText_of_endWord (hws : ∀ w ∈ ws, IsReadable w)
    (hliterals : (ws.foldl endWord r).literals = []) : IsClauseText ws :=
  ⟨fun w hw => (hws w hw).1, wordValue_getLast? hws hliterals⟩

theorem not_isNumeral_minus : ¬IsNumeral [45] := fun h => h.1 rfl

/-- An accepted text has at most one problem line.  Its words are the text of clauses unless the
last one is a lone minus sign, and then those before that are. -/
theorem isClauseText_iff (h : readAll { stem } bytes = .ok r) :
    (textLines bytes).countP (·.head? == some 112) ≤ 1 ∧
    (IsClauseText (textWords (textLines bytes)) ↔
      (textWords (textLines bytes)).getLast? ≠ some [45]) ∧
    ((textWords (textLines bytes)).getLast? = some [45] →
      IsClauseText (textWords (textLines bytes)).dropLast) := by
  obtain ⟨rest, r', hreads, hliterals, -⟩ := exists_reads h
  obtain ⟨ws, hwords, hws, hrest, hsame, -⟩ := hreads.words
  rw [hsame] at hliterals
  have htext := isClauseText_of_endWord hws hliterals
  have hminus : IsClauseText (textWords (textLines bytes)) →
      (textWords (textLines bytes)).getLast? ≠ some [45] := fun htext hlast =>
    not_isNumeral_minus (htext.1 _ (List.mem_of_getLast? hlast))
  refine ⟨hreads.countP_problem_le, ?_⟩
  rw [hwords] at hminus ⊢
  rcases hrest with rfl | rfl
  · rw [List.append_nil] at hminus ⊢
    exact ⟨⟨hminus, fun _ => htext⟩, fun hlast => absurd hlast (hminus htext)⟩
  · rw [List.getLast?_concat, List.dropLast_concat]
    exact ⟨⟨fun h => absurd List.getLast?_concat (hminus h), fun h => absurd rfl h⟩, fun _ => htext⟩

/-- A text with an empty clause, several blanks in a row, a leading zero and a negative 0. -/
def blanksExample : List UInt8 := "c 1 A\r\np cnf 2 2\n 1  -02 0\r\nc -\n-0".toUTF8.toList

theorem isClauseText_iff_example :
    ∃ r, readAll {} blanksExample = .ok r ∧
      textWords (textLines blanksExample) = [[49], [45, 48, 50], [48], [45, 48]] ∧
      IsClauseText (textWords (textLines blanksExample)) := by
  have hwords : textWords (textLines blanksExample) = [[49], [45, 48, 50], [48], [45, 48]] := by
    decide +kernel
  have hread : (readAll {} blanksExample).toOption.map (·.clauseCount) = some 2 := by decide +kernel
  obtain ⟨r, hr, -⟩ := exists_of_map_toOption hread
  refine ⟨r, hr, hwords, (isClauseText_iff hr).2.1.2 ?_⟩
  rw [hwords]
  decide

/-- A lone minus sign at the end of a text is accepted. -/
theorem isClauseText_fails :
    ∃ r, readAll {} "1 0 -".toUTF8.toList = .ok r ∧
      ¬IsClauseText (textWords (textLines "1 0 -".toUTF8.toList)) := by
  have hread : (readAll {} "1 0 -".toUTF8.toList).toOption.map (·.clauseCount) = some 1 := by
    decide +kernel
  obtain ⟨r, hr, -⟩ := exists_of_map_toOption hread
  exact ⟨r, hr, by decide +kernel⟩

end Reader
end Presence
