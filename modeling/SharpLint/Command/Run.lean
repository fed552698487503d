import SharpLint.Command.Help
import SharpLint.Config.Store
import SharpLint.Report.Project

/-!
# Running Commands

A command reads and changes a disk, prints lines and ends with an exit code.
What it cannot know by itself, the terminal and the time that the work takes, is
told to it when the lines are printed.

## Main definitions

* `Terminal`: where the lines are printed, and how long the work took.
* `Outcome`: what a command leaves.
* `Request.run`: runs a command.
-/

namespace SharpLint

/-- Where lines are printed, and how long the work took. -/
structure Terminal where
  colours : Bool := false
  /-- The time that the command took, in words. -/
  elapsed : String
  /-- The milliseconds that the analysis took. -/
  milliseconds : Nat := 0
  deriving Repr

/-- What a command leaves. -/
structure Outcome where
  exitCode : Nat
  disk : Disk
  /-- The lines that are printed. -/
  lines : Terminal → List String := fun _ => []

namespace Outcome

/-- All that is printed on a terminal. -/
def output (outcome : Outcome) (terminal : Terminal) : String :=
  String.join ((outcome.lines terminal).map (· ++ "\n"))

end Outcome

namespace Request

/-- The folder whose configuration holds for a path. -/
def configFolder (disk : Disk) (path : String) : String :=
  if disk.isFile (disk.locate path) then FilePath.parent path else path

/-- The line about fixes that were written, if there are any. -/
def fixLines (terminal : Terminal) (report : ProjectReport) : List String :=
  match report.fixed with
  | none => []
  | some fixed =>
    [Paint.boldGreen.apply terminal.colours "✓" ++ " Applied " ++ toString report.fixesApplied
      ++ " fixes in " ++ toString fixed.length ++ " files"]

/-- The lines of a report. -/
def reportLines (terminal : Terminal) (fixing : Bool) (format : Format) (report : ProjectReport) :
    List String :=
  match format with
  | .plain => report.summary terminal.colours fixing terminal.elapsed
  | .json => [(report.json terminal.milliseconds).pretty]
  | .annotations => report.annotations

/-- Checks the sources at a path. With `fixing` set, the fixes are written
    first and what is left is reported. -/
def runCheck (disk : Disk) (path : String) (fixing : Bool) (format : Format) (strict : Bool) :
    Outcome :=
  let config := Config.loadOrDefault disk (configFolder disk path)
  let first := disk.analyzeProject config fixing path
  let disk := disk.writeFixes (first.fixed.getD [])
  let report := if fixing then disk.analyzeProject config false path else first
  { exitCode := if strict && 0 < report.issueCount then 1 else 0
    disk
    lines := fun terminal => fixLines terminal first ++ reportLines terminal fixing format report }

/-- Creates a configuration or shows the one that holds. -/
def runConfig (disk : Disk) (shown created : Bool) : Outcome :=
  if created then
    match Config.create disk "." with
    | .ok (path, disk) =>
      { exitCode := 0, disk
        lines := fun terminal =>
          [Paint.boldGreen.apply terminal.colours "✓" ++ " Created " ++ path] }
    | .error _ => { exitCode := 1, disk }
  else if shown then
    match (Config.loadOrDefault disk ".").write? with
    | some text => { exitCode := 0, disk, lines := fun _ => [String.ofList text] }
    | none => { exitCode := 1, disk }
  else { exitCode := 0, disk }

/-- Runs a command. -/
def run (disk : Disk) : Request → Outcome
  | .check path fixing format strict => runCheck disk path fixing format strict
  | .config shown created => runConfig disk shown created
  | .help topic => { exitCode := 0, disk, lines := fun _ => topic.lines }
  | .version => { exitCode := 0, disk, lines := fun _ => [versionLine] }
  | .misuse => { exitCode := 2, disk }

end Request

end SharpLint
