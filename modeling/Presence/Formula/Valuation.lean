import Presence.Formula.Walk
import Std.Data.TreeMap

/-!
# Valuations

A *valuation* gives truth values to finitely many names and one fallback value
to all others.  A symbol that nobody set is disabled unless the valuation says
otherwise.

`Valuation.ofCounter` reads a number as a row of a truth table, where the bit
of weight `2 ^ i` is the value of the name at position `i`.  Counting up thus
runs through all rows (`truthTable`), and `isSatisfiableByTable` looks for a row
in which a formula holds.
-/

namespace Presence

/-- Truth values of names, with a fallback for names that have none. -/
structure Valuation where
  /-- The names that have a value of their own. -/
  values : Std.TreeMap String Bool := ∅
  /-- The value of every other name. -/
  fallback : Bool := false

namespace Valuation

/-- Gives a name a value in place of any earlier one. -/
def set (v : Valuation) (name : String) (value : Bool) : Valuation :=
  { v with values := v.values.insert name value }

/-- The value of its own that a name has. -/
def get? (v : Valuation) (name : String) : Option Bool := v.values[name]?

/-- The value of a name. -/
def value (v : Valuation) (name : String) : Bool := (v.get? name).getD v.fallback

/-- The number of names with a value of their own. -/
def size (v : Valuation) : Nat := v.values.size

/-- The names with a value of their own, in the order of their texts. -/
def toList (v : Valuation) : List (String × Bool) := v.values.toList

/-- Sets each name in turn, so that the last value of a name counts. -/
def ofList (entries : List (String × Bool)) : Valuation :=
  entries.foldl (fun v entry => v.set entry.1 entry.2) {}

/-- Every name gets the bit of the counter at its position. -/
def ofCounter (names : List String) (counter : Nat) : Valuation :=
  ofList (names.zipIdx.map fun (name, index) => (name, counter.testBit index))

end Valuation

namespace Formula

/-- The truth value of a formula under a valuation. -/
def evaluate (f : Formula) (v : Valuation) : Bool := f.eval v.value

/-- The values of a formula under all valuations of its names, in the order of
the counter. -/
def truthTable (f : Formula) : List Bool :=
  (List.range (Nat.pow 2 f.names.length)).map fun counter =>
    f.evaluate (Valuation.ofCounter f.names counter)

/-- The formula holds in some row of its truth table. -/
def isSatisfiableByTable (f : Formula) : Bool :=
  (List.range (Nat.pow 2 f.names.length)).any fun counter =>
    f.evaluate (Valuation.ofCounter f.names counter)

end Formula

end Presence
