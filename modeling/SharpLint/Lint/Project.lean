import SharpLint.Files.SourceFile
import SharpLint.Lint.Analysis
import SharpLint.Walk.Walk

/-!
# Analysis and Fixing of Many Sources

Each source is read, analysed and fixed by itself. A source that cannot be
read is counted and passed over. Fixing writes nothing: the new contents are
part of the report.

## Main definitions

* `ProjectReport`: what was found in the sources, and what they become.
* `Disk.sources`: the sources that a path stands for.
* `Disk.analyzeProject`: the report about them.
-/

namespace SharpLint

/-- What a source becomes. -/
structure FixedSource where
  path : String
  content : Text
  /-- The number of fixes applied. -/
  applied : Nat
  deriving DecidableEq, Repr

/-- What was found in some sources. -/
structure ProjectReport where
  fileCount : Nat
  /-- The number of sources that could not be read. -/
  failed : Nat
  /-- The sources with issues. -/
  found : List (String × List Issue)
  /-- What sources become; none if no source changes. -/
  fixed : Option (List FixedSource)
  deriving DecidableEq, Repr

namespace ProjectReport

/-- The issues of all sources. -/
def issues (report : ProjectReport) : List Issue :=
  report.found.flatMap Prod.snd

/-- The number of issues of all sources. -/
def issueCount (report : ProjectReport) : Nat :=
  report.issues.length

/-- The number of issues with a fix. -/
def fixableCount (report : ProjectReport) : Nat :=
  (report.issues.filter fun issue => issue.fix.isSome).length

/-- The number of fixes that were applied. -/
def fixesApplied (report : ProjectReport) : Nat :=
  (report.fixed.getD []).foldl (fun sum source => sum + source.applied) 0

/-- The number of issues of each severity that occurs. -/
def severityCounts (report : ProjectReport) : List (Severity × Nat) :=
  [Severity.error, .warning, .info].filterMap fun severity =>
    let count := report.issues.countP fun issue => issue.rule.severity == severity
    if count = 0 then none else some (severity, count)

/-- The sources with issues, in the order of their paths. -/
def inOrder (report : ProjectReport) : List (String × List Issue) :=
  sortBy (fun a b => FilePath.before (FilePath.split '/' a.1) (FilePath.split '/' b.1)) report.found

end ProjectReport

namespace Disk

/-- The sources that a written path stands for: a file stands for itself, a
    folder for the sources below it. -/
def sources (disk : Disk) (config : Config) (target : String) : List String :=
  if disk.isFile (disk.locate target) then [target] else disk.walk config.ignore target

/-- The source at a written path. -/
def sourceAt (disk : Disk) (config : Config) (path : String) : Except DiskFault SourceFile :=
  disk.readSource config.performance.memoryMapped (disk.locate path)

/-- The issues of the source at a path. -/
def issuesAt (disk : Disk) (config : Config) (path : String) : Except DiskFault (List Issue) :=
  (disk.sourceAt config path).map fun source => analyze config source.text

/-- What the source at a path becomes, if it changes. -/
def fixedAt? (disk : Disk) (config : Config) (path : String) : Option FixedSource :=
  match disk.sourceAt config path with
  | .error _ => none
  | .ok source =>
    let (text, applied) := fixSource config source.text
    if text = source.text then none else some ⟨path, source.content text, applied⟩

/-- The issues of some sources, where there are any, and the number of sources
    that could not be read. -/
def issuesOf (disk : Disk) (config : Config) (paths : List String) :
    List (String × List Issue) × Nat :=
  let results := paths.map fun path => (path, disk.issuesAt config path)
  (results.filterMap fun result =>
      match result.2 with
      | .ok (issue :: issues) => some (result.1, issue :: issues)
      | _ => none,
    results.countP fun result => !result.2.toBool)

/-- What some sources become: those that have a fixable issue and change. -/
def fixesOf (disk : Disk) (config : Config) (found : List (String × List Issue)) :
    List FixedSource :=
  found.filterMap fun (path, issues) =>
    if issues.any fun issue => issue.fix.isSome then disk.fixedAt? config path else none

/-- The report about the sources that a path stands for. With `fixing` set it
    also says what they become, unless the configuration forbids that. -/
def analyzeProject (disk : Disk) (config : Config) (fixing : Bool) (target : String) :
    ProjectReport :=
  let paths := disk.sources config target
  let (found, failed) := disk.issuesOf config paths
  let fixed := if fixing && config.autofix.enabled then disk.fixesOf config found else []
  ⟨paths.length, failed, found, if fixed.isEmpty then none else some fixed⟩

/-- The disk with the new contents written. What cannot be written stays. -/
def writeFixes (disk : Disk) (fixed : List FixedSource) : Disk :=
  fixed.foldl (fun disk source =>
    (disk.write (disk.locate source.path) source.content).toOption.getD disk) disk

end Disk

end SharpLint
