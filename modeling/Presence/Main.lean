import Presence.CommandLine.Run
import Presence.ConfigText
import Presence.Search

/-!
# The command

Reads the files that the arguments name, and the standard input if a listing is
to be read from there.  Then it makes the run and prints what the run prints.
The search is the engine of all checks.
-/

namespace Presence

/-- The bytes of a file.  A fault of type without a name is one of reading, and so that of
a directory. -/
def readFile (path : String) : IO (Except FileFault (List UInt8)) := do
  try
    let bytes ← IO.FS.readBinFile path
    return .ok bytes.toList
  catch
    | .noFileOrDirectory .. => return .error .missing
    | .permissionDenied .. => return .error .denied
    | .inappropriateType none .. => return .error .isDirectory
    | .inappropriateType (some _) .. => return .error .notDirectory
    | .invalidArgument (some _) .. => return .error .nameTooLong
    | cause => return .error (.other (toString cause))

/-- The command takes its listing from the standard input. -/
def readsInput : Command → Bool
  | .prune _ _ none => true
  | _ => false

/-- The surroundings of a run with these files and this input. -/
def surroundings (files : FileStore) (input : List UInt8) : Surroundings where
  files := files
  input := input
  configText text := (ConfigUpdate.ofText text).mapError ConfigTextError.message
  engines _ := Search.engine

/-- Makes a run in the surroundings of the process. -/
def runCommandLine (arguments : List String) : IO UInt32 := do
  let command := Arguments.command? arguments
  let mut contents : List (String × Except FileFault (List UInt8)) := []
  for path in (command.map CommandLine.paths).getD [] do
    contents := (path, ← readFile path) :: contents
  let known := contents
  let files : FileStore := fun path => (known.lookup path).getD (.error .missing)
  let input ←
    if command.any readsInput then (·.toList) <$> (← IO.getStdin).readBinToEnd else pure []
  let run := CommandLine.run (surroundings files input) arguments
  let threshold := Threshold.ofName (← IO.getEnv "KMINER_LOG")
  (← IO.getStdout).putStr (run.output threshold)
  if command.isNone then
    IO.eprintln "usage: kminer (parse | cnf | sat | prune) [options] [operand]"
  return UInt32.ofNat run.exitCode

end Presence

/-- Runs the command line. -/
def main (arguments : List String) : IO UInt32 := Presence.runCommandLine arguments
