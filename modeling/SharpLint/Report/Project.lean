import SharpLint.Lint.Project
import SharpLint.Report.Json
import SharpLint.Report.Line

/-!
# Project Reports

The report about many sources in the forms in which it is printed. The sources
come in the order of their paths.

## Main definitions

* `ProjectReport.summary`: the report for people.
* `ProjectReport.annotations`: the report as workflow annotations.
* `ProjectReport.json`: the report for other programs.
-/

namespace SharpLint

/-- A fix for other programs. -/
def Fix.json (fix : Fix) : JsonValue :=
  .record [("title", .string fix.title), ("equivalence_key", .string fix.key),
    ("replacements", .list (fix.edits.map fun edit =>
      .record [("start", .number edit.span.start), ("end", .number edit.span.stop),
        ("text", .string (String.ofList edit.text))]))]

/-- An issue for other programs. -/
def Issue.json (issue : Issue) : JsonValue :=
  .record [("rule", .string issue.rule.id), ("title", .string issue.rule.title),
    ("category", .string issue.rule.category), ("severity", .string issue.severity.title),
    ("message", .string issue.message), ("description", .string issue.rule.description),
    ("location", .record [("line", .number issue.location.line),
      ("column", .number issue.location.column), ("end_line", .number issue.location.endLine),
      ("end_column", .number issue.location.endColumn)]),
    ("span", .record [("start", .number issue.span.start), ("end", .number issue.span.stop)]),
    ("fix", .ofOption Fix.json issue.fix)]

namespace ProjectReport

/-- The lines about one source, an empty one first. -/
def sourceLines (colours : Bool) (path : String) (issues : List Issue) : List String :=
  "" :: Paint.bold.apply colours path :: issues.map (Issue.reportLine colours)

/-- The lines of the report for people. `elapsed` is the time that it took;
    with `fixing` set, the fixable issues are those that fixing left over, and
    nothing is said about them. -/
def summary (report : ProjectReport) (colours fixing : Bool) (elapsed : String) : List String :=
  if report.issueCount = 0 then
    [Paint.boldGreen.apply colours "✓ Checked" ++ " " ++ toString report.fileCount ++ " files in "
      ++ elapsed]
  else
    report.inOrder.flatMap (fun source => sourceLines colours source.1 source.2)
      ++ ["", Paint.boldRed.apply colours "Found" ++ " " ++ toString report.issueCount
        ++ " issues in " ++ toString report.found.length ++ " files (" ++ elapsed ++ ")"]
      ++ (if !fixing && 0 < report.fixableCount then
        [Paint.yellow.apply colours "→" ++ " " ++ toString report.fixableCount
          ++ " issues can be fixed with --fix"]
      else [])

/-- The annotations of all issues. -/
def annotations (report : ProjectReport) : List String :=
  report.inOrder.flatMap fun source => source.2.map (Issue.annotation source.1)

/-- The report for other programs. `milliseconds` is the time that the
    analysis took. -/
def json (report : ProjectReport) (milliseconds : Nat) : JsonValue :=
  .record [
    ("file_issues", .record (report.inOrder.map fun source =>
      (source.1, .list (source.2.map Issue.json)))),
    ("stats", .record [("total_files", .number report.fileCount),
      ("files_with_issues", .number report.found.length),
      ("total_issues", .number report.issueCount),
      ("issues_by_severity", .record (report.severityCounts.map fun count =>
        (count.1.name, .number count.2))),
      ("failed_files", .number report.failed)]),
    ("performance_stats", .record [("analysis_time_ms", .number milliseconds),
      ("autofix_time_ms", .null), ("fixes_applied", .number report.fixesApplied)]),
    ("fixed_files", .ofOption (fun fixed => .record (fixed.map fun source =>
      (source.path, .string (String.ofList source.content)))) report.fixed)]

end ProjectReport

end SharpLint
