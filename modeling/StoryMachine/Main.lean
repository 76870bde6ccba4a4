import StoryMachine.CommandLine

/-!
# The program

Commands work on files that are known beforehand. A command that asks for a file
that is not among them is done again after the file has been read, until nothing
new is found; only then does it leave anything behind.
-/

namespace StoryMachine

/-- The instructions that a run may take. -/
def runLength : Nat := 0x4000000000000000

/-- The bytes of a file, if it can be read. -/
def readFile? (path : String) : IO (Option Bytes) := do
  try
    return some (← IO.FS.readBinFile path).data.toList
  catch _ => return none

/-- Whether there is something at a path. -/
def leadsSomewhere (path : String) : IO Bool := do
  try
    let _ ← IO.FS.realPath path
    return true
  catch _ => return false

/-- Adds what there is of files and directories under the names. -/
def learn (names : List String) (host : Host) (directories : List String) :
    IO (Host × List String) := do
  let mut host := host
  let mut directories := directories
  for name in names do
    if let some bs ← readFile? name then host := host.storeFile name bs
    let directory := FileNames.directoryOf name
    if !directories.contains directory && (← leadsSomewhere directory) then
      directories := directory :: directories
  return ({ host with names := .paths directories }, directories)

/-- Does what the arguments say. -/
partial def perform (args : List String) (host : Host) (directories : List String) :
    IO UInt8 := do
  let report := CommandLine.run args host runLength
  let (wider, known) ← learn report.host.missed.eraseDups host directories
  if host.files.length < wider.files.length || directories.length < known.length then
    perform args wider known
  else
    for (name, bs) in report.host.files do
      if host.file? name != some bs then IO.FS.writeBinFile name ⟨bs.toArray⟩
    IO.print report.output
    IO.eprint report.errors
    return report.code

end StoryMachine

/-- Runs images and describes them. -/
def main (args : List String) : IO UInt32 := do
  let code ← StoryMachine.perform args { names := .paths [] } []
  return code.toUInt32
