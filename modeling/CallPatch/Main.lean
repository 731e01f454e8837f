import CallPatch.Demo.Program
/-!
# The program

Runs the scenario its arguments name. The environment says which base
implementations to extend, where to put dumps, and how much to log.
-/

namespace CallPatch.Demo

/-- The environment variable that sets the log filter. -/
def logVariable : String := "VOIDPUT_LOG"

/-- Copies the dumps below a directory of the file system; one that cannot be written is left
out. -/
def writeDumps (dir : String) (dumps : Dump.Directory) : IO Unit := do
  for (path, bytes) in dumps.listing do
    let folder := "/".intercalate (path.splitOn "/").dropLast
    try
      IO.FS.createDirAll (dir ++ "/" ++ folder)
      IO.FS.writeBinFile (dir ++ "/" ++ path) ⟨bytes.toArray⟩
    catch _ => pure ()

end CallPatch.Demo

open CallPatch CallPatch.Demo in
def main (arguments : List String) : IO UInt32 := do
  let config := AgentConfig.ofTexts (← IO.getEnv AgentConfig.baseImplementationsVariable)
    (← IO.getEnv AgentConfig.dumpDirVariable)
  let run := Report.ofArguments (← IO.getEnv logVariable) config arguments
  if let some dir := config.dumpDir then writeDumps dir (Report.dumps run)
  match run with
  | .error stop =>
    IO.eprintln stop.message
    return stop.status.toUInt32
  | .ok report =>
    if let some closing := report.closing? then IO.println closing.text
    IO.print report.shown
    return 0
