import SharpLint.Lint.Issue
import SharpLint.Report.Paint

/-!
# Report Lines

## Main definitions

* `Issue.reportLine`: an issue on one line for people.
* `Issue.annotation`: an issue as a workflow annotation.
-/

namespace SharpLint

/-- The paint of a severity. -/
def Severity.paint : Severity → Paint
  | .error => .boldRed
  | .warning => .boldYellow
  | .info => .boldCyan

namespace Issue

/-- The severity of the issue. -/
def severity (issue : Issue) : Severity :=
  issue.rule.severity

/-- The issue on one line, indented below the name of its file. -/
def reportLine (colours : Bool) (issue : Issue) : String :=
  let fixable := if issue.fix.isSome then Paint.green.apply colours " (fixable)" else ""
  "  " ++ toString issue.location.line ++ ":" ++ toString issue.location.column ++ " "
    ++ issue.severity.paint.apply colours issue.severity.name
    ++ " [" ++ Paint.dimmed.apply colours issue.rule.id ++ "] " ++ issue.message ++ fixable

/-- The issue as an annotation on a file. -/
def annotation (file : String) (issue : Issue) : String :=
  "::" ++ issue.severity.annotationLevel ++ " file=" ++ file
    ++ ",line=" ++ toString issue.location.line ++ ",col=" ++ toString issue.location.column
    ++ ",title=" ++ issue.rule.id ++ "::" ++ issue.message

end Issue

end SharpLint
