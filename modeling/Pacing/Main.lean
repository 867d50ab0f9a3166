import Pacing.Command

/-!
# The command line

Reads the arguments, the environment and the files, and prints what the command says.
-/

open Pacing.Command

/-- What the system says of a failed read. -/
def reasonOf : IO.Error → String
  | .inappropriateType _ code details => s!"{details} (os error {code})"
  | e => toString e

def findFile (path : String) : IO File := do
  match ← (IO.FS.Handle.mk path .read).toBaseIO with
  | .error _ => return .missing
  | .ok file =>
    match ← file.readBinToEnd.toBaseIO with
    | .ok content => return .bytes content.toList
    | .error e => return .unreadable (reasonOf e)

/-- Reads files in the order in which they are named. -/
def findFiles (paths : List String) : IO (List (String × File)) :=
  paths.mapM fun path => return (path, ← findFile path)

def main (args : List String) : IO UInt32 := do
  let environment ← IO.getEnv "BELIEFCC_CONFIG"
  let files ← findFiles (filesOf args environment)
  let outcome := run args environment fun path => (files.lookup path).getD .missing
  let (out, err) := outcome.printed
  out.forM IO.println
  err.forM IO.eprintln
  return outcome.exitCode.toUInt32
