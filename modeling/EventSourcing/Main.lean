import EventSourcing.Cli.Demo

/-!
# The demo's entry point

Reads the engine settings' variables from the process environment, runs the demo's command
line, writes what it printed, and exits with its code.
-/

open EventSourcing

/-- Runs the demo on the process's command line and environment. -/
def main (args : List String) : IO UInt32 := do
  let mut vars : List (String × String) := []
  for name in EngineConfig.envNames do
    if let some value ← IO.getEnv name then
      vars := vars ++ [(name, value)]
  let exit := Cli.runDemo args fun name => (vars.find? (·.1 == name)).map (·.2)
  IO.print exit.stdout
  IO.eprint exit.stderr
  return exit.code.toUInt32
