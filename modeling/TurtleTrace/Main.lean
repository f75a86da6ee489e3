import TurtleTrace.CommandLine.Run

/-!
# The program

Reads the files that the arguments name, runs the command line on them, and writes what it reports.
-/

open TurtleTrace TurtleTrace.CommandLine

/-- What a path leads to on this machine. -/
def readEntry (path : Text) : IO Entry := do
  let name : String := String.ofList path
  try
    let content ← IO.FS.readFile name
    return .file content.toList
  catch _ =>
    try
      let _ ← IO.FS.Handle.mk name .read
      return .directory
    catch _ => return .missing

def main (arguments : List String) : IO UInt32 := do
  let words := arguments.map String.toList
  let entries ← (pathsOf words).mapM fun path => do return (path, ← readEntry path)
  let report := run words fun path => (entries.lookup path).getD .missing
  IO.eprint (String.ofList report.stderr)
  for (path, text) in report.writes do
    IO.FS.writeFile (String.ofList path) (String.ofList text)
  IO.print (String.ofList report.stdout)
  if let some fault := report.fault then
    IO.eprintln (String.ofList fault.message)
  return report.exit.toUInt32
