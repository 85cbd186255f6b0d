import SymbolicVM.CommandLine.Execute

/-!
# The command line

Reads the files that the arguments name, carries out the task and prints what comes of it.
-/

namespace SymbolicVM.CommandLine

/-- Adds the files at some paths to a directory, as far as they can be read. -/
def addFiles (files : Directory) (paths : List String) : IO Directory :=
  paths.foldlM
    (fun files (path : String) => do
      try return files.write path (← IO.FS.readBinFile path).toList
      catch _ => return files)
    files

/-- The names of the files in the working directory. -/
def workingFiles : IO (List String) := do
  let entries ← (← IO.currentDir).readDir
  return entries.toList.map fun entry => entry.fileName

end SymbolicVM.CommandLine

open SymbolicVM SymbolicVM.CommandLine

/-- Runs the command line. -/
def main (arguments : List String) : IO UInt32 := do
  let files ← addFiles .empty (← workingFiles)
  let files ← addFiles files (namedPaths arguments)
  let files ← addFiles files (configuredPath? files arguments).toList
  let filter := Log.filterFor (← IO.getEnv "SYMIR_LOG") (← IO.getEnv "RUST_LOG")
  let ending := execute files filter arguments
  for event in ending.shown do
    IO.eprintln (Text.upper event.level.name ++ " " ++ event.target)
  IO.print ending.output
  for line in ending.complaint.toList do
    IO.eprintln line
  return ending.status.toUInt32
