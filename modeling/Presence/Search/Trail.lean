import Presence.Search.Queue

/-!
# Trails

A *trail* is the row of literals that a search takes to hold, with the reasons
why.  A literal is on it by choice or because a clause has no other literal left
that may hold; that clause is its *reason*.  Every choice begins a new *level*.
What is on level 0 holds without any choice, and its reason is then a clause of
that literal alone, derived for the purpose.

Every clause of two or more literals *watches* two of its literals.  As long as
neither fails, the clause can wait.  When one fails the clause looks for another
literal to watch (`Trail.visit`), and if there is none then the other watched
literal has to hold.

Inside a search variables are numbered from 0 and literals are *codes*: the
variable `v` is the code `2 * v` and its negation `2 * v + 1`.  A derivation made
here names the literals it removes by code.

Nothing about a trail is relied on.  What a search finds is checked afterwards.
-/

namespace Presence.Search

/-- The code of the negation. -/
def opposite (p : Nat) : Nat := if p % 2 = 0 then p + 1 else p - 1

/-- The variable of a code. -/
def variableOf (p : Nat) : Nat := p / 2

/-- A byte of a row, 0 outside of it. -/
def byteAt (bytes : ByteArray) (i : Nat) : UInt8 := if h : i < bytes.size then bytes[i] else 0

/-- A row of bytes with one of them changed. -/
def setByte (bytes : ByteArray) (i : Nat) (b : UInt8) : ByteArray :=
  if h : i < bytes.size then bytes.set i b h else bytes

/-- A row of zeros. -/
def zeros (count : Nat) : ByteArray := ⟨Array.replicate count 0⟩

/-- A derivation whose literals are codes: a first clause, and the clauses it is
resolved with, each with the literal that this removes. -/
structure CodedDerivation where
  /-- The place of the first clause. -/
  start : Nat
  /-- The removed literals with the places of the clauses. -/
  steps : List (Nat × Nat)

/-- The state of a search. -/
structure Trail where
  /-- The clauses by place.  An empty one is out of use. -/
  clauses : Array (Array Nat)
  /-- The sum of the two watched literals of each clause. -/
  watched : Array Nat
  /-- The places of the clauses that watch each literal. -/
  watchers : Array (List Nat)
  /-- Of each literal 1 if it holds, 2 if it fails, 0 if it is open. -/
  truth : ByteArray
  /-- The level of each variable that is not open. -/
  levels : Array Nat
  /-- The place of the reason of each variable plus one, 0 if there is none. -/
  reasons : Array Nat
  /-- The place of each variable on the trail. -/
  positions : Array Nat
  /-- The last truth of each variable. -/
  habits : ByteArray
  /-- The literals that hold, in order. -/
  literals : Array Nat
  /-- The length of the trail at each choice. -/
  marks : Array Nat
  /-- How many literals of the trail their watchers have seen. -/
  seen : Nat
  /-- The order in which variables are chosen. -/
  queue : Queue
  /-- What has been derived, in order. -/
  derived : Array CodedDerivation

namespace Trail

/-- The literal holds. -/
def holds (t : Trail) (p : Nat) : Bool := byteAt t.truth p == 1

/-- The literal fails. -/
def fails (t : Trail) (p : Nat) : Bool := byteAt t.truth p == 2

/-- The variable is open. -/
def isOpen (t : Trail) (v : Nat) : Bool := byteAt t.truth (2 * v) == 0

/-- The present level. -/
def level (t : Trail) : Nat := t.marks.size

/-- The level of a literal that is not open. -/
def levelOf (t : Trail) (p : Nat) : Nat := t.levels.getD (variableOf p) 0

/-- The link to the reason of a literal that is not open. -/
def reasonOf (t : Trail) (p : Nat) : Nat := t.reasons.getD (variableOf p) 0

/-- The literals of a clause. -/
def clause (t : Trail) (place : Nat) : Array Nat := t.clauses.getD place #[]

/-! ## Growth -/

/-- Adds a clause, which watches its first two literals if it has two. -/
def add (t : Trail) (c : Array Nat) : Trail :=
  let place := t.clauses.size
  let p := c.getD 0 0
  let q := c.getD 1 0
  { t with
    clauses := t.clauses.push c
    watched := t.watched.push (p + q)
    watchers :=
      if c.size < 2 then t.watchers
      else (t.watchers.modify p (place :: ·)).modify q (place :: ·) }

/-- Adds a derived clause. -/
def learn (t : Trail) (d : CodedDerivation) (c : Array Nat) : Trail :=
  { t with derived := t.derived.push d }.add c

/-- Puts a literal on the trail with the link to its reason. -/
def push (t : Trail) (p reason : Nat) : Trail :=
  let v := variableOf p
  { t with
    truth := setByte (setByte t.truth p 1) (opposite p) 2
    levels := t.levels.setIfInBounds v t.marks.size
    reasons := t.reasons.setIfInBounds v reason
    positions := t.positions.setIfInBounds v t.literals.size
    literals := t.literals.push p }

/-- The steps that remove literals that fail on level 0. -/
def rootSteps (t : Trail) (ps : List Nat) : List (Nat × Nat) :=
  ps.map fun p => (p, t.reasonOf p - 1)

/-- Puts a literal on the trail whose reason is a clause.  On level 0 the clause
of the literal alone is derived first. -/
def force (t : Trail) (p place : Nat) : Trail :=
  if t.marks.isEmpty then
    let rest := (t.clause place).toList.filter (· != p)
    if rest.isEmpty then t.push p (place + 1)
    else
      let unit := t.clauses.size
      (t.learn ⟨place, t.rootSteps rest⟩ #[p]).push p (unit + 1)
  else t.push p (place + 1)

/-! ## Watching -/

/-- The first literal of a clause from a place on that does not fail and is not
the given one, plus one, and 0 if there is none. -/
def substitute (truth : ByteArray) (ps : Array Nat) (other i : Nat) : Nat :=
  if h : i < ps.size then
    if ps[i] != other && byteAt truth ps[i] != 2 then ps[i] + 1
    else substitute truth ps other (i + 1)
  else 0
termination_by ps.size - i

/-- A clause watches a literal together with another one. -/
@[noinline]
def rewatch (t : Trail) (place p other : Nat) : Trail :=
  { t with
    watched := t.watched.setIfInBounds place (p + other)
    watchers := t.watchers.modify p (place :: ·) }

/-- The clauses at the places still watch a literal, and so do those in `kept`. -/
def keep (t : Trail) (p : Nat) (kept places : List Nat) : Trail :=
  { t with watchers := t.watchers.setIfInBounds p (places.reverseAux kept) }

/-- The clauses at the places, which watched a literal that now fails, look for
another; those in `kept` have found none.  The result is the link to a clause
all of whose literals fail, if one is met. -/
def visit (p : Nat) (kept : List Nat) : List Nat → Trail → Trail × Nat
  | [], t => (t.keep p kept [], 0)
  | place :: places, t =>
      let other := t.watched.getD place 0 - p
      if t.holds other then visit p (place :: kept) places t
      else if (t.clause place).isEmpty then visit p kept places t
      else
        match substitute t.truth (t.clause place) other 0 with
        | 0 =>
            if t.fails other then (t.keep p kept (place :: places), place + 1)
            else visit p (place :: kept) places (t.force other place)
        | q + 1 => visit p kept places (t.rewatch place q other)

/-- Lets watchers see the literals of the trail that they have not seen, at most
`steps` of them.  The result is the link to a clause all of whose literals fail,
if one is met. -/
def propagate : (steps : Nat) → Trail → Trail × Nat
  | 0, t => (t, 0)
  | steps + 1, t =>
      if h : t.seen < t.literals.size then
        let p := opposite t.literals[t.seen]
        let places := t.watchers.getD p []
        let t := { t with seen := t.seen + 1, watchers := t.watchers.setIfInBounds p [] }
        match visit p [] places t with
        | (t, 0) => propagate steps t
        | (t, link) => (t, link)
      else (t, 0)

/-! ## Choices -/

/-- Chooses a literal. -/
def choose (t : Trail) (p : Nat) : Trail :=
  { t with marks := t.marks.push t.literals.size }.push p 0

/-- Takes literals off the end of the trail until it has the given length; there
are `excess` too many. -/
def shorten : (excess : Nat) → Trail → Trail
  | 0, t => t
  | excess + 1, t =>
      let p := t.literals.getD (t.literals.size - 1) 0
      let v := variableOf p
      shorten excess
        { t with
          truth := setByte (setByte t.truth p 0) (opposite p) 0
          habits := setByte t.habits v (if p % 2 = 0 then 1 else 0)
          queue := t.queue.reopen v
          literals := t.literals.pop }

/-- Goes back to a level. -/
def backTo (t : Trail) (level : Nat) : Trail :=
  if level < t.marks.size then
    let length := t.marks.getD level 0
    let t := shorten (t.literals.size - length) t
    { t with seen := length, marks := t.marks.take level }
  else t

/-- Variables matter, one after the other. -/
def touch (t : Trail) (vs : List Nat) : Trail := { t with queue := vs.foldl Queue.touch t.queue }

/-- The open literal to choose next, if a variable is open. -/
def next? (t : Trail) : Option (Nat × Trail) :=
  match t.queue.openFrom t.isOpen t.levels.size t.queue.pointer with
  | 0 => none
  | v + 1 =>
      let p := if byteAt t.habits v == 1 then 2 * v else 2 * v + 1
      some (p, { t with queue := { t.queue with pointer := v + 1 } })

end Trail

end Presence.Search
