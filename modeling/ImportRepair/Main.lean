import ImportRepair.CommandLine.Run

/-!
# The program

Runs the command line on the files of the operating system.
-/

namespace ImportRepair

open CommandLine

/-- Access to the files of the operating system. -/
def systemFiles : FileAccess IO where
  read path := do
    try
      return some (← IO.FS.readFile path)
    catch _ => return none
  exists? path := do
    try
      let _ ← IO.FS.realPath path
      return true
    catch _ => return false
  write path text := do
    try
      IO.FS.writeFile path text
      return true
    catch _ => return false

end ImportRepair

open ImportRepair CommandLine in
/-- Run the program on its arguments. -/
def main (arguments : List String) : IO UInt32 := do
  match parse arguments with
  | .error e =>
    IO.eprintln e.name
    return if e = .displayHelp ∨ e = .displayVersion then 0 else 2
  | .ok invocation => do
    let outcome ← run systemFiles invocation
    IO.print outcome.stdout
    unless outcome.stderr.isEmpty do
      IO.eprint outcome.stderr
      unless outcome.stderr.endsWith "\n" do IO.eprintln ""
    return UInt32.ofNat outcome.exit
