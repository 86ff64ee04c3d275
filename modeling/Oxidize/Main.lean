import Oxidize.CommandLine.Run

/-!
# The command line

Runs a command on the files of the machine.
-/

namespace Oxidize

/-- The files of the machine. A file is what can be opened and read from. -/
def machineFiles : FileSystem IO where
  isFile p := do
    try
      let handle ← IO.FS.Handle.mk p.text .read
      let _ ← handle.read 1
      return true
    catch _ => return false
  read p := do
    try
      return some (← IO.FS.readFile p.text)
    catch _ => return none
  write p text := do
    try
      IO.FS.writeFile p.text text
      return true
    catch _ => return false

end Oxidize

/-- Answers the arguments of the command line. -/
def main (args : List String) : IO UInt32 := do
  let report ← Oxidize.CommandLine.run Oxidize.machineFiles args
  IO.eprint report.stderr
  IO.print report.stdout
  return UInt32.ofNat report.exitCode
