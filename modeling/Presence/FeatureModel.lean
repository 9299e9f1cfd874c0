import Presence.Dimacs.Writer

/-!
# Feature models

A *feature model* is a clause form with names for its variables.  It is read
from a DIMACS text and written as one.  Reading marks every number as used that
occurs in the text, so that a new name never gets one of them.
-/

namespace Presence

/-- A clause form with names of its variables. -/
structure FeatureModel where
  /-- The clauses. -/
  cnf : Cnf := .ofCount 0
  /-- The names of the variables. -/
  names : NameTable := .empty

namespace FeatureModel

/-- Reads a feature model, with the stem put before every name. -/
def parse (stem : String) (bytes : List UInt8) : Except DimacsError FeatureModel :=
  (Reader.readAll { stem } bytes).map fun r =>
    { cnf := r.cnf, names := r.names.reserve r.cnf.variableCount }

/-- Writes the names that begin with the stem, then the clauses. -/
def render (m : FeatureModel) (stem : String) : String := m.names.render stem ++ m.cnf.render

end FeatureModel

end Presence
