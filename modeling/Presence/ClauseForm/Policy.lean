/-!
# Unknown variables

A condition may name variables that the feature model does not know.  A *policy*
says what becomes of them.
-/

namespace Presence

/-- What becomes of variables that the feature model does not know. -/
inductive Policy where
  /-- They are a fault. -/
  | fail
  /-- They are free. -/
  | openWorld
  /-- They are false. -/
  | closedWorld
  deriving DecidableEq, Repr

/-- A name that is the name of no policy. -/
structure UnknownPolicy where
  /-- The name. -/
  name : String
  deriving DecidableEq, Repr

/-- The wording of the fault that a name is the name of no policy. -/
def UnknownPolicy.message (u : UnknownPolicy) : String :=
  "Unknown variable policy '" ++ u.name ++ "', expected fail, open or closed"

namespace Policy

/-- The name of a policy. -/
def name : Policy → String
  | fail => "fail"
  | openWorld => "open"
  | closedWorld => "closed"

/-- The policies in the order in which they are listed. -/
def all : List Policy := [fail, openWorld, closedWorld]

/-- The policy of a name. -/
def ofName? (name : String) : Option Policy := all.find? fun p => p.name == name

/-- The policy of a name, or the fault that there is none. -/
def ofName (name : String) : Except UnknownPolicy Policy :=
  match ofName? name with
  | some p => .ok p
  | none => .error ⟨name⟩

end Policy

end Presence
