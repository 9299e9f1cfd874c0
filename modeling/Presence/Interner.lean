import Std.Data.TreeMap

/-!
# Interners

An *interner* hands out one ticket per name.  A name keeps its ticket until the
interner is cleared, and no ticket is handed out for two names or again after a
clear.  Two occurrences of a name thus share a ticket exactly if no clear came
between them.
-/

namespace Presence

/-- The tickets of the names handed out since the last clear. -/
structure Interner where
  /-- The ticket of each name. -/
  tickets : Std.TreeMap String Nat := ∅
  /-- The next ticket that nobody has. -/
  next : Nat := 0

namespace Interner

/-- The ticket of a name, if it has one. -/
def ticket? (i : Interner) (name : String) : Option Nat := i.tickets[name]?

/-- Gives a name a ticket unless it has one. -/
def intern (i : Interner) (name : String) : Interner :=
  match i.ticket? name with
  | some _ => i
  | none => { tickets := i.tickets.insert name i.next, next := i.next + 1 }

/-- Gives every name of a list a ticket. -/
def internAll (i : Interner) (names : List String) : Interner := names.foldl intern i

/-- The number of names with a ticket. -/
def size (i : Interner) : Nat := i.tickets.size

/-- Forgets all names.  Their tickets are not used again. -/
def clear (i : Interner) : Interner := { i with tickets := ∅ }

end Interner

end Presence
