/-!
# Queues of variables

A *queue* orders variables by when they last mattered.  A variable that matters
moves to the end, and the next choice is made for the open variable nearest to
the end.  A pointer remembers how far from the end the variables are known not
to be open.

Variables are numbered from 0.  A link holds the number of a variable plus one,
so that 0 is a link to nothing.
-/

namespace Presence.Search

/-- Variables in the order in which they last mattered. -/
structure Queue where
  /-- The link of each variable to the one before it. -/
  before : Array Nat
  /-- The link of each variable to the one after it. -/
  after : Array Nat
  /-- The link to the variable at the end. -/
  last : Nat
  /-- When each variable last mattered. -/
  stamps : Array Nat
  /-- The present time. -/
  time : Nat
  /-- The link to the variable from which to look for an open one. -/
  pointer : Nat

namespace Queue

/-- A queue of variables in the order of their numbers. -/
def ofCount (count : Nat) : Queue where
  before := (Array.range count)
  after := (Array.range count).map fun v => if v + 1 < count then v + 2 else 0
  last := count
  stamps := Array.range count
  time := count
  pointer := count

/-- When a variable last mattered. -/
def stamp (q : Queue) (v : Nat) : Nat := q.stamps.getD v 0

/-- Takes a variable out. -/
def unlink (q : Queue) (v : Nat) : Queue :=
  let b := q.before.getD v 0
  let a := q.after.getD v 0
  { q with
    after := if b = 0 then q.after else q.after.setIfInBounds (b - 1) a
    before := if a = 0 then q.before else q.before.setIfInBounds (a - 1) b
    last := if a = 0 then b else q.last }

/-- Puts a variable at the end that is not in the queue. -/
def append (q : Queue) (v : Nat) : Queue :=
  { q with
    before := q.before.setIfInBounds v q.last
    after :=
      (if q.last = 0 then q.after else q.after.setIfInBounds (q.last - 1) (v + 1)).setIfInBounds v 0
    last := v + 1
    stamps := q.stamps.setIfInBounds v q.time
    time := q.time + 1 }

/-- The variable matters now. -/
def touch (q : Queue) (v : Nat) : Queue := (q.unlink v).append v

/-- The variable is open again. -/
def reopen (q : Queue) (v : Nat) : Queue :=
  if q.pointer = 0 || q.stamp (q.pointer - 1) < q.stamp v then { q with pointer := v + 1 } else q

/-- The link to the open variable nearest to the end, from a link on, among the
given number of variables. -/
def openFrom (q : Queue) (isOpen : Nat → Bool) : (count : Nat) → (link : Nat) → Nat
  | 0, _ => 0
  | _ + 1, 0 => 0
  | count + 1, v + 1 => if isOpen v then v + 1 else q.openFrom isOpen count (q.before.getD v 0)

end Queue

end Presence.Search
