import Presence.Checker.Config
import Presence.Checker.Error
import Presence.Checker.Notice
import Presence.FeatureModel

/-!
# Checks against a feature model

A *checker* is a feature model with a configuration.  It encodes a condition as
numbered clauses that go with the clauses of the model (`Checker.encode`), and
it decides whether a condition and the model can hold together
(`Checker.isSatisfiable`).  A conflict of unit clauses answers at once, and else
an engine does, which is fresh for each check (`Checker.solve`).

No check changes the checker.  The names that an encoding adds live in the table
of the encoding only.
-/

namespace Presence

/-- A feature model with a configuration. -/
structure Checker where
  /-- The feature model. -/
  model : FeatureModel := {}
  /-- The configuration. -/
  config : Config := {}

namespace Checker

/-! ## Loading -/

/-- A checker for a model, with the notice that it was read. -/
def withModel (config : Config) (model : FeatureModel) : Noted Checker :=
  ⟨[.modelRead model.cnf.variableCount model.names.size model.cnf.clauses.size],
    { model, config }⟩

/-- Reads the feature model from bytes; `wrap` says what a fault of the bytes is
a fault of. -/
def loadAs (wrap : DimacsError → ModelError) (config : Config) (bytes : List UInt8) :
    Noted (Except CheckError Checker) :=
  match FeatureModel.parse config.stem bytes with
  | .error cause => ⟨[], .error (.model (wrap cause))⟩
  | .ok model => (withModel config model).map .ok

/-- Reads the feature model from bytes. -/
def load (config : Config) (bytes : List UInt8) : Noted (Except CheckError Checker) :=
  loadAs .malformed config bytes

/-- Reads the feature model from a file. -/
def loadFile (config : Config) (files : FileStore) (path : String) :
    Noted (Except CheckError Checker) :=
  Noted.after [.readingModel path] <|
    match files path with
    | .error cause => ⟨[], .error (.model (.unreadable path cause))⟩
    | .ok bytes => loadAs (.malformedFile path) config bytes

/-- Sets options.  The names of the model stay as they are. -/
def configure (c : Checker) (u : ConfigUpdate) : Checker := { c with config := u.apply c.config }

/-! ## Encoding -/

/-- The clauses of a condition as a feature model of their own, whose table has
the names of the model and those that the encoding added. -/
def encode (c : Checker) (f : Formula) (policy : Policy) : Noted (Except CheckError FeatureModel) :=
  match ClauseForm.ofFormula c.config.strategy c.config.maxDepth (some c.model.names) f with
  | .error cause => ⟨[], .error (.constraint cause)⟩
  | .ok form =>
      Noted.after [.converted form.clauses.length form.supply.next] <|
        match Numbered.ofClauses policy (form.supply.table.getD c.model.names) form.clauses with
        | .error cause => ⟨[], .error (.ofNumbering cause)⟩
        | .ok numbered =>
            ⟨numbered.added.map fun (name, number) => .unknownVariable name policy number,
              .ok
                { cnf := (Cnf.ofClauses numbered.clauses).reserve numbered.table.mark
                  names := numbered.table }⟩

/-! ## Checking -/

/-- The clauses of the model. -/
def modelClauses (c : Checker) : List Clause := c.model.cnf.clauses.toList

/-- What the engine says of the clauses of the model, and of those of a query if
there is one.  With a time limit a worker runs the engine, and what becomes of it
decides whether there is an answer. -/
def solve (c : Checker) (engine : Engine) (query : Option Cnf) : Noted (Except CheckError Bool) :=
  let forms := c.model.cnf :: query.toList
  let answer := (engine.solve forms).mapError CheckError.engine
  match c.config.timeLimit? with
  | none => ⟨[], answer⟩
  | some limit =>
      match engine.course limit forms with
      | .notStarted message => ⟨[], .error (.workerNotStarted message)⟩
      | .inTime => ⟨[], answer⟩
      | .late => ⟨[.timedOut limit], .error (.timeout limit)⟩
      | .lost => ⟨[], .error .workerFailed⟩

/-- The model can hold. -/
def isModelSatisfiable (c : Checker) (engine : Engine) : Noted (Except CheckError Bool) :=
  c.solve engine none

/-- The model and the condition can hold together. -/
def isSatisfiable (c : Checker) (engine : Engine) (f : Formula) (policy : Policy) :
    Noted (Except CheckError Bool) :=
  let encoded := c.encode f policy
  Noted.after encoded.notices <|
    match encoded.result with
    | .error cause => ⟨[], .error cause⟩
    | .ok query =>
        match Conflict.find? (Conflict.units c.modelClauses) query.cnf.clauses.toList with
        | some conflict => ⟨[.contradiction f conflict], .ok false⟩
        | none => c.solve engine (some query.cnf)

end Checker

end Presence
