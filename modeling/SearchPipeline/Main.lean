import SearchPipeline.CommandLine

/-!
# The program

Reads the arguments, the two variables and the files they name, runs the command
and writes what it leaves behind.
-/

namespace SearchPipeline

/-- The text of a file, if it can be read. -/
def readText? (path : String) : IO (Option String) := do
  try
    return some (← IO.FS.readFile path)
  catch _ =>
    return none

/-- What the command finds when it starts. -/
def currentInvocation (arguments : List String) : IO Invocation := do
  let settingsPath ← IO.getEnv "QUARRY_CONFIG"
  let alwaysProjected ← IO.getEnv "QUARRY_ALWAYS_PROJECTED"
  let paths := settingsPath.toList ++ arguments.take 1
  let files ← paths.mapM fun path => return (path, ← readText? path)
  let takesInput := arguments.head?.all (· = "-")
  let standardInput ← if takesInput then (← IO.getStdin).readToEnd else pure ""
  return {
    arguments, settingsPath, alwaysProjected, standardInput
    fileAt? := fun path => (files.lookup path).join
  }

end SearchPipeline

/-- Compiles the request that the arguments name. -/
def main (arguments : List String) : IO UInt32 := do
  let result := (← SearchPipeline.currentInvocation arguments).run
  IO.print result.output
  if let some report := result.report then IO.eprintln report
  return UInt32.ofNat result.code
