import SharpLint.Command.Run

/-!
# The Command Line

Reads the part of the disk that a command has to know, runs the command, writes
the files that it changed and prints its lines.
-/

namespace SharpLint

namespace Program

/-- The written path from the top of the disk. -/
def written (path : FilePath) : String :=
  "/" ++ String.intercalate "/" path

/-- Whether the contents of a file of this name have a say in a command. -/
def isKnown (name : String) : Bool :=
  [Config.fileName, ".dslintignore", ".ignore", ".gitignore"].contains name
    || Disk.isSource [name]

/-- The disk with the file at the path, if one can be read there. -/
def addFile (disk : Disk) (path : FilePath) : IO Disk := do
  try
    return disk.put path (← IO.FS.readBinFile (written path))
  catch _ => return disk

/-- The disk with the rules that hold in a folder. -/
def addRules (disk : Disk) (folder : FilePath) : IO Disk := do
  let mut disk := disk
  try
    let entries ← (← IO.FS.realPath (written folder)).readDir
    disk := { disk with folders := folder :: disk.folders }
    for entry in entries do
      let path := folder ++ [entry.fileName]
      if entry.fileName = ".git" then
        disk := { disk with folders := path :: disk.folders }
        disk ← addFile disk (path ++ ["info", "exclude"])
      else if isKnown entry.fileName && !Disk.isSource path then disk ← addFile disk path
  catch _ => pure ()
  return disk

/-- The disk with the rules and sources in a folder and below it. -/
partial def addBelow (disk : Disk) (folder : FilePath) : IO Disk := do
  let mut disk ← addRules disk folder
  try
    for entry in (← (← IO.FS.realPath (written folder)).readDir) do
      let path := folder ++ [entry.fileName]
      match (← entry.path.symlinkMetadata).type with
      | .dir => if entry.fileName != ".git" then disk ← addBelow disk path
      | .file => if Disk.isSource path then disk ← addFile disk path
      | _ => pure ()
  catch _ => pure ()
  return disk

/-- The part of the disk that has a say in a command on the path. -/
def load (path : String) : IO Disk := do
  let top : Disk := {}
  let mut disk : Disk := { here := top.locate (← IO.currentDir).toString }
  let start := disk.locate path
  for folder in FilePath.inits disk.here ++ FilePath.inits start.dropLast do
    disk ← addRules disk folder
  disk ← addFile disk start
  if disk.isFile start then return disk
  addBelow disk start

/-- Writes what a command changed. -/
def save (files : List (FilePath × ByteArray)) : IO Unit := do
  for (path, bytes) in files do
    try
      IO.FS.writeBinFile (written path) bytes
    catch fault => IO.eprintln ("error: " ++ written path ++ ": " ++ toString fault)

/-- Whether what is printed may be painted. -/
def usesColours : IO Bool := do
  let isOn (name : String) : IO (Option Bool) :=
    return (← IO.getEnv name).map (· != "0")
  if (← isOn "CLICOLOR_FORCE") == some true then return true
  if (← isOn "NO_COLOR").isSome then return false
  return (← isOn "CLICOLOR").getD true && (← (← IO.getStdout).isTty)

/-- A number of milliseconds in seconds, with one place behind the point. -/
def seconds (milliseconds : Nat) : String :=
  let tenths := (milliseconds + 50) / 100
  toString (tenths / 10) ++ "." ++ toString (tenths % 10) ++ "s"

/-- Runs the command that the arguments ask for. The answer is its exit code. -/
def run (arguments : List String) : IO UInt32 := do
  let begun ← IO.monoMsNow
  let request := Request.parse arguments
  let disk ← match request with
    | .check path .. => load path
    | .config .. => load "."
    | _ => pure {}
  let outcome := request.run disk
  save (outcome.disk.changes disk)
  let passed := (← IO.monoMsNow) - begun
  IO.print (outcome.output
    { colours := ← usesColours, elapsed := seconds passed, milliseconds := passed })
  return outcome.exitCode.toUInt32

end Program

end SharpLint

/-- Runs the command line. -/
def main (arguments : List String) : IO UInt32 :=
  SharpLint.Program.run arguments
