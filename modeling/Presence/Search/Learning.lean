import Presence.Cnf
import Presence.Search.Analysis
import Presence.Search.Refutation
import Std.Data.TreeMap

/-!
# Learning

A search makes choices and lets clauses force what follows from them.  If a
clause fails then a clause is learned from the failure that rules out what led
to it, and the search goes back to where that clause has something to say.  From
time to time it goes back to the start and forgets clauses of little use.

The search ends with an assignment or with a refutation (`Finding`).  It works
within a given number of rounds, and whoever asks has to check what it finds.
-/

namespace Presence.Search

/-! ## Numbering -/

/-- The variables of clauses, numbered from 0. -/
structure Renaming where
  /-- The number from 0 of each variable. -/
  indices : Std.TreeMap Nat Nat := ∅
  /-- The variables in order. -/
  numbers : Array Nat := #[]

namespace Renaming

/-- Numbers a variable unless it has a number. -/
def add (r : Renaming) (number : Nat) : Renaming :=
  if r.indices.contains number then r
  else { indices := r.indices.insert number r.numbers.size, numbers := r.numbers.push number }

/-- The variables of clauses. -/
def ofClauses (cs : List Clause) : Renaming :=
  cs.foldl (fun r c => c.foldl (fun r l => r.add l.number) r) {}

/-- The code of a literal. -/
def encode (r : Renaming) (l : Literal) : Nat :=
  2 * r.indices.getD l.number 0 + if l.positive then 0 else 1

/-- The literal of a code. -/
def decode (r : Renaming) (p : Nat) : Literal := ⟨r.numbers.getD (variableOf p) 0, p % 2 == 0⟩

/-- The derivation of a derivation by codes. -/
def decodeDerivation (r : Renaming) (d : CodedDerivation) : Derivation :=
  ⟨d.start, d.steps.map fun (p, place) => (r.decode p, place)⟩

end Renaming

/-! ## Beginnings -/

/-- What a search finds out. -/
inductive Finding where
  /-- The values of variables under which all clauses hold. -/
  | assignment (values : Std.TreeMap Nat Bool)
  /-- A refutation. -/
  | refutation (derivations : List Derivation)
  /-- Nothing. -/
  | nothing

/-- The codes of a clause, each once.  A clause that always holds has none. -/
def Renaming.encodeClause (r : Renaming) (c : Clause) : Array Nat :=
  let codes := ((c.map r.encode).mergeSort fun p q => p ≤ q).eraseReps
  if (codes.zip codes.tail).any fun (p, q) => p % 2 == 0 && q == p + 1 then #[] else codes.toArray

/-- A trail without clauses. -/
def Trail.ofCount (count : Nat) : Trail where
  clauses := #[]
  watched := #[]
  watchers := Array.replicate (2 * count) []
  truth := zeros (2 * count)
  levels := Array.replicate count 0
  reasons := Array.replicate count 0
  positions := Array.replicate count 0
  habits := zeros count
  literals := #[]
  marks := #[]
  seen := 0
  queue := Queue.ofCount count
  derived := #[]

namespace Trail

/-- Ends a refutation with a clause all of whose literals fail on level 0. -/
def refute (t : Trail) (place : Nat) : CodedDerivation :=
  ⟨place, t.rootSteps (t.clause place).toList⟩

/-- Lets the clauses of one literal force it.  The result is the link to one that
fails, if there is one. -/
def forceUnits : List Nat → Trail → Trail × Nat
  | [], t => (t, 0)
  | place :: places, t =>
      match (t.clause place).toList with
      | [p] =>
          if t.fails p then (t, place + 1)
          else forceUnits places (if t.holds p then t else t.force p place)
      | _ => forceUnits places t

end Trail

/-! ## Searches -/

/-- The member of the sequence 1, 1, 2, 1, 1, 2, 4, 1, … that `n` counts from 0.
Each power of two comes after two runs of what precedes it. -/
def reluctance (n : Nat) : Nat :=
  let rec go : (tries : Nat) → Nat → Nat
    | 0, _ => 1
    | tries + 1, n =>
        let size := (n + 1).log2
        if n + 2 = Nat.pow 2 (size + 1) then Nat.pow 2 size
        else go tries (n + 1 - Nat.pow 2 size)
  go (n + 1) n

/-- What a search keeps in mind beside its trail. -/
structure Memory where
  /-- Marks for analyses, all zeros in between. -/
  met : ByteArray
  /-- Places of learned clauses with their breadths. -/
  learned : List (Nat × Nat) := []
  /-- The number of learned clauses in use. -/
  learnedCount : Nat := 0
  /-- How many of them there may be at the next start. -/
  limit : Nat := 3000
  /-- The number of starts. -/
  starts : Nat := 0
  /-- The number of failures before the next start. -/
  patience : Nat := 64

/-- How a search goes on. -/
inductive Turn where
  /-- It goes on. -/
  | more (t : Trail) (m : Memory)
  /-- A choice for every variable stands. -/
  | settled (t : Trail)
  /-- The derivation ends a refutation. -/
  | refuted (t : Trail) (d : CodedDerivation)

/-- Learns from a clause all of whose literals fail on a level above 0. -/
def fail (t : Trail) (m : Memory) (place : Nat) : Turn :=
  let lesson := t.analyze m.met place
  let order := lesson.touched.mergeSort fun v w => t.queue.stamp v ≤ t.queue.stamp w
  let t := ((t.touch order).backTo lesson.level)
  let added := t.clauses.size
  let isUnit := lesson.literals.size < 2
  .more ((t.learn lesson.derivation lesson.literals).push (lesson.literals.getD 0 0) (added + 1))
    { m with
      met := lesson.met
      learned := if isUnit then m.learned else (added, lesson.breadth) :: m.learned
      learnedCount := if isUnit then m.learnedCount else m.learnedCount + 1
      patience := m.patience - 1 }

/-- Takes learned clauses out of use. -/
def forget (t : Trail) (places : List (Nat × Nat)) : Trail :=
  { t with
    clauses := places.foldl (fun clauses (place, _) => clauses.setIfInBounds place #[]) t.clauses }

/-- Goes back to the start, and forgets half of the learned clauses if there are
too many, the broadest first. -/
def restart (t : Trail) (m : Memory) : Turn :=
  let t := t.backTo 0
  let m := { m with starts := m.starts + 1, patience := 64 * reluctance (m.starts + 1) }
  if m.learnedCount < m.limit then .more t m
  else
    let (narrow, broad) := m.learned.partition fun (_, breadth) => breadth ≤ 2
    let broad := broad.mergeSort fun (_, b) (_, c) => b ≤ c
    let half := broad.length / 2
    .more (forget t (broad.drop half))
      { m with
        learned := narrow ++ broad.take half
        learnedCount := narrow.length + half
        limit := m.limit + 500 }

/-- The next turn, once the watchers have seen the trail or a clause fails, to
which there is a link then. -/
def turn (m : Memory) (t : Trail) (link : Nat) : Turn :=
  if link ≠ 0 then
    if t.level = 0 then .refuted t (t.refute (link - 1)) else fail t m (link - 1)
  else if m.patience = 0 then restart t m
  else
    match t.next? with
    | none => .settled t
    | some (p, t) => .more (t.choose p) m

/-- The turn of a search after rounds. -/
def run : (rounds : Nat) → Trail → Memory → Turn
  | 0, t, m => .more t m
  | rounds + 1, t, m =>
      match t.propagate (t.levels.size + 1) with
      | (t, link) =>
          match turn m t link with
          | .more t m => run rounds t m
          | turn => turn

/-- What the turn of a search has found out. -/
def Finding.ofTurn (r : Renaming) : Turn → Finding
  | .more .. => nothing
  | .settled t =>
      assignment <| r.indices.map fun _ v => t.holds (2 * v)
  | .refuted t d => refutation ((t.derived.push d).toList.map r.decodeDerivation)

/-- What a search finds out about clauses within a number of rounds. -/
def find (rounds : Nat) (cs : List Clause) : Finding :=
  match cs.findIdx? List.isEmpty with
  | some place => .refutation [⟨place, []⟩]
  | none =>
      let r := Renaming.ofClauses cs
      let count := r.numbers.size
      let trail := cs.foldl (fun t c => t.add (r.encodeClause c)) (Trail.ofCount count)
      match trail.forceUnits (List.range trail.clauses.size) with
      | (trail, 0) => .ofTurn r (run rounds trail { met := zeros count })
      | (trail, link) => .ofTurn r (.refuted trail (trail.refute (link - 1)))

end Presence.Search
