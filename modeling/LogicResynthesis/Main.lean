import LogicResynthesis.Cli.Run

/-!
# The program

Reads the settings file that the arguments ask for, runs, and writes both output
channels.
-/

namespace LogicResynthesis.Cli

/-- The text of a file, if it can be read. -/
def readText? (path : String) : IO (Option String) := do
  try
    return some (← IO.FS.readFile path)
  catch _ => return none

/-- The time that an evaluation took. -/
def timed {α : Type} (work : Unit → α) : IO (α × Duration) := do
  let before ← IO.monoNanosNow
  let result := work ()
  let after ← IO.monoNanosNow
  match Duration.ofNanoseconds? (after - before) with
  | .ok d => return (result, d)
  | .error _ => return (result, .zero)

end LogicResynthesis.Cli

open LogicResynthesis Cli

def main (args : List String) : IO UInt32 := do
  let path := settingsFile args
  let text ← readText? path
  let (_, classTime) ← timed fun _ => Npn.ClassTable.standard.classes
  let (_, libraryTime) ← timed fun _ => Engine.builtIn false
  let result := run (fun p => if p = path then text else none) ⟨classTime, libraryTime⟩ args
  let out ← IO.getStdout
  let err ← IO.getStderr
  for line in result.stdout do
    out.putStrLn line
  for line in result.stderr do
    err.putStrLn line
  return UInt32.ofNat result.exit
