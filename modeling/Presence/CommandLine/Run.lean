import Presence.CommandLine.Arguments
import Presence.Listing

/-!
# Runs of the command line

A run turns arguments, files and the standard input into lines of output and an
exit code.  Notices are lines too, marked by `c` and left out where they matter
less than asked for.  A run that fails ends with a notice of the failure and the
exit code 1, and checks answer with 10 and 20 as is usual for solvers.

How configuration texts are read and clauses are solved is up to the surroundings
of the run.
-/

namespace Presence

/-- A line of output. -/
inductive Line where
  /-- A notice. -/
  | notice (n : Notice)
  /-- A text with its line feeds. -/
  | text (s : String)

/-- The least level that is shown, if any is. -/
abbrev Threshold := Option Level

namespace Line

/-- The notice is shown. -/
def isShown (threshold : Threshold) (n : Notice) : Bool :=
  match threshold with
  | none => false
  | some level => n.level.rank ≤ level.rank

/-- A line as it is printed. -/
def render (threshold : Threshold) : Line → String
  | text s => s
  | notice n =>
      if !isShown threshold n then ""
      else if n.level = .info then "c " ++ n.text ++ "\n"
      else "c " ++ n.level.name ++ ": " ++ n.text ++ "\n"

end Line

/-- The threshold of a name.  A name that is none means the usual one. -/
def Threshold.ofName (name : Option String) : Threshold :=
  match name with
  | none => some .info
  | some name =>
      let name := name.toList.map Char.toUpper
      if name = "OFF".toList then none
      else some ((Level.all.find? fun level => level.name.toList == name).getD .info)

/-- What a run prints, and its exit code or the wording of its failure. -/
structure Run where
  /-- The lines of output. -/
  lines : List Line
  /-- The exit code, or the wording of the failure. -/
  result : Except String Nat

namespace Run

/-- The same run with lines in front. -/
def after (lines : List Line) (r : Run) : Run := { r with lines := lines ++ r.lines }

/-- The same run with notices in front. -/
def afterNotices (notices : List Notice) (r : Run) : Run := r.after (notices.map .notice)

/-- A run that ends with a failure. -/
def fail (message : String) : Run := ⟨[], .error message⟩

/-- A run that prints a text and ends. -/
def print (text : String) (exitCode : Nat) : Run := ⟨[.text text], .ok exitCode⟩

/-- The exit code of a run. -/
def exitCode (r : Run) : Nat :=
  match r.result with
  | .ok code => code
  | .error _ => 1

/-- What a run prints. -/
def output (threshold : Threshold) (r : Run) : String :=
  let failure :=
    match r.result with
    | .ok _ => []
    | .error message => [Line.notice (.failure message)]
  String.join ((r.lines ++ failure).map (Line.render threshold))

end Run

/-- The world around a run. -/
structure Surroundings where
  /-- The files. -/
  files : FileStore
  /-- The standard input. -/
  input : List UInt8 := []
  /-- The update of a configuration text, or the wording of its fault. -/
  configText : String → Except String ConfigUpdate
  /-- The engines of the checks, one for each. -/
  engines : Nat → Engine

namespace CommandLine

/-! ## Parts of commands -/

/-- The formula of an expression, or the wording of why it has none. -/
def expression (dialect : Dialect) (text : String) : Except String Formula :=
  match { grammar := dialect.grammar : Parser }.parse text with
  | .ok f => .ok f
  | .error cause =>
      .error (joinChain ["Couldn't parse expression \"" ++ text ++ "\"", cause.message])

/-- The update of a configuration file. -/
def configFile (s : Surroundings) (path : String) : Except String ConfigUpdate :=
  match s.files path with
  | .error cause =>
      let opening := "Couldn't open configuration file '" ++ path ++ "'"
      .error (joinChain ((if cause.isOfReading then [] else [opening]) ++ [cause.message]))
  | .ok bytes =>
      match Utf8.decode? bytes with
      | none => .error (InvalidText.message {})
      | some text => s.configText text

/-- The update of all options: those of the file, then the single fields. -/
def configUpdate (s : Surroundings) (o : ModelOptions) : Except String ConfigUpdate := do
  let fromFile ←
    match o.configFile with
    | some path => configFile s path
    | none => .ok {}
  o.fields.foldlM (fun u text => (s.configText text).map u.merge) fromFile

/-- The checker that the options ask for. -/
def checker (s : Surroundings) (o : ModelOptions) : Noted (Except String Checker) :=
  match configUpdate s o with
  | .error message => ⟨[], .error message⟩
  | .ok u =>
      match o.model with
      | some path =>
          (Checker.loadFile (u.apply {}) s.files path).map
            (Except.mapError fun cause => joinChain cause.chain)
      | none => ⟨[.noModel], .ok (({} : Checker).configure u)⟩

/-- Goes on with the checker that the options ask for. -/
def withChecker (s : Surroundings) (o : ModelOptions) (next : Checker → Run) : Run :=
  let found := checker s o
  match found.result with
  | .error message => (Run.fail message).afterNotices found.notices
  | .ok c => (next c).afterNotices found.notices

/-- The description of the options, if it is asked for, and else the run with its
greeting. -/
def greeted (o : ModelOptions) (run : Run) : Run :=
  if o.fields.contains "help" then Run.print Config.help 0 else run.afterNotices [.banner]

/-! ## Commands -/

/-- The clauses of a condition, one to a line. -/
def listClauses (c : Checker) (f : Formula) : Run :=
  match ClauseForm.ofFormula c.config.strategy c.config.maxDepth none f with
  | .error cause => Run.fail cause.message
  | .ok form =>
      (Run.print (String.join (form.clauses.map fun clause => clause.render ++ "\n")) 0).afterNotices
        [.converted form.clauses.length form.supply.next,
          .clauseCount form.clauses.length c.config.strategy.name]

/-- The numbered clauses of a condition as a DIMACS text. -/
def listNumbered (c : Checker) (f : Formula) : Run :=
  let encoded := c.encode f c.config.policy
  Run.afterNotices encoded.notices <|
    match encoded.result with
    | .error cause => Run.fail (joinChain cause.chain)
    | .ok query =>
        (Run.print (query.render c.config.stem) 0).afterNotices
          [.numberedCount query.cnf.clauses.size query.cnf.variableCount]

/-- The answer of a check.  That it took too long is an answer, too. -/
def answer (checked : Noted (Except CheckError Bool)) : Run :=
  Run.afterNotices checked.notices <|
    match checked.result with
    | .ok true => Run.print "s SATISFIABLE\n" 10
    | .ok false => Run.print "s UNSATISFIABLE\n" 20
    | .error (.timeout limit) =>
        (Run.print "s UNKNOWN\n" 0).afterNotices [.failure (CheckError.timeout limit).message]
    | .error cause => Run.fail (joinChain cause.chain)

/-- Checks a condition. -/
def checkExpression (s : Surroundings) (c : Checker) (dialect : Dialect) (text : String) : Run :=
  match expression dialect text with
  | .error message => Run.fail message
  | .ok f =>
      (answer (c.isSatisfiable (s.engines 0) f c.config.policy)).afterNotices [.checking f]

/-- Prunes a listing, given by its bytes. -/
def pruneListing (s : Surroundings) (c : Checker) (dialect : Dialect) (bytes : List UInt8) : Run :=
  let listing := Listing.read { grammar := dialect.grammar } bytes
  Run.afterNotices listing.notices <|
    match listing.result with
    | .error cause => Run.fail cause.message
    | .ok entries =>
        let found := Listing.prune s.engines c c.config.policy entries
        Run.afterNotices found.notices <|
          match found.result with
          | .error cause => Run.fail (joinChain cause.chain)
          | .ok pruned =>
              (Run.print (String.join (pruned.map fun e => e.file ++ "\n")) 0).afterNotices
                [.pruned pruned.length entries.length]

/-- The bytes of a listing. -/
def listingBytes (s : Surroundings) : Option String → Except FileFault (List UInt8)
  | some path => s.files path
  | none => .ok s.input

/-- Runs a command. -/
def runCommand (s : Surroundings) : Command → Run
  | .parse dialect text =>
      match expression dialect text with
      | .error message => Run.fail message
      | .ok f => Run.print (f.render ++ "\n") 0
  | .clauses options dialect numbered text =>
      greeted options <|
        match expression dialect text with
        | .error message => Run.fail message
        | .ok f =>
            withChecker s options fun c => if numbered then listNumbered c f else listClauses c f
  | .check options _ none =>
      greeted options <| withChecker s options fun c => answer (c.isModelSatisfiable (s.engines 0))
  | .check options dialect (some text) =>
      greeted options <| withChecker s options fun c => checkExpression s c dialect text
  | .prune options dialect input =>
      greeted options <|
        withChecker s options fun c =>
          Run.afterNotices [.readingListing input] <|
            match listingBytes s input with
            | .error cause => Run.fail cause.message
            | .ok bytes => pruneListing s c dialect bytes

/-- Runs the command that arguments ask for.  Arguments that ask for none end the
run with the exit code 1 and no output. -/
def run (s : Surroundings) (arguments : List String) : Run :=
  match Arguments.command? arguments with
  | some command => runCommand s command
  | none => ⟨[], .ok 1⟩

/-- The files that a run of a command may read. -/
def paths : Command → List String
  | .parse .. => []
  | .clauses options .. | .check options .. => options.configFile.toList ++ options.model.toList
  | .prune options _ input =>
      options.configFile.toList ++ options.model.toList ++ input.toList

end CommandLine

end Presence
