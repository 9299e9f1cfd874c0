import Presence.NameTable
import Std.Data.TreeSet

/-!
# Supplies of new names

Clause form needs names of its own.  A *supply* knows the names that are taken
and hands out `temp_0`, `temp_1`, … without those.  If it has a name table, it
passes over the names of the table too and adds each name it hands out.  It
keeps a list of what it handed out, and so of what clause form introduced.
-/

namespace Presence

/-- A source of names that are not in use. -/
structure Supply where
  /-- The table that learns the names that are handed out. -/
  table : Option NameTable := none
  /-- The names that are in use without being in the table. -/
  taken : Std.TreeSet String := ∅
  /-- The number in the next name to try. -/
  next : Nat := 0
  /-- The names that have been handed out, the last name first. -/
  issued : List String := []

namespace Supply

/-- The name of a temporary of the given number. -/
def temporary (k : Nat) : String := "temp_" ++ toString k

/-- The name is taken or in the table. -/
def isUsed (s : Supply) (name : String) : Bool :=
  s.taken.contains name ||
    match s.table with
    | some table => table.contains name
    | none => false

/-- The number of names in use, counting twice a name that is both taken and in
the table. -/
def usedCount (s : Supply) : Nat :=
  s.taken.size +
    match s.table with
    | some table => table.size
    | none => 0

/-- Hands out a given name: takes it and adds it to the table. -/
def register (s : Supply) (name : String) : Supply :=
  { s with
    table := s.table.map (·.add name)
    taken := s.taken.insert name
    issued := name :: s.issued }

/-- The first number from `k` on that is not used, if one is among the next
`tries` numbers, and else the number after those. -/
def firstUnused (used : Nat → Bool) : (tries : Nat) → (k : Nat) → Nat
  | 0, k => k
  | tries + 1, k => if used k then firstUnused used tries (k + 1) else k

/-- The number of the next temporary.  There are not more used names than tries,
so one of the tries meets an unused name. -/
def unusedNumber (s : Supply) : Nat :=
  firstUnused (fun k => s.isUsed (temporary k)) s.usedCount s.next

/-- A new name and the supply without it. -/
def fresh (s : Supply) : String × Supply :=
  (temporary s.unusedNumber,
    { s.register (temporary s.unusedNumber) with next := s.unusedNumber + 1 })

end Supply

end Presence
