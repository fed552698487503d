import SharpLint.Config.Basic
import SharpLint.Edit.Batch
import SharpLint.Lint.RemoveField
import SharpLint.Lint.WrapParameters

/-!
# Analysis and Fixing of One Source

## Main definitions

* `Config.enabledRules`: the rules that run.
* `fixFor`: the fix for an issue.
* `check`: the issues of a document, without fixes.
* `analyze`: the issues of a source, each with its fix where there is one.
* `fixSource`: rounds of analysis and fixing.
-/

namespace SharpLint

/-- The rules that run under a configuration, in the order of their reports. -/
def Config.enabledRules (config : Config) : List Rule :=
  (if config.rules.checkConstructorLength then [.constructorLength] else [])
    ++ (if config.rules.checkUnreadFields then [.unreadField] else [])

/-- The fix of a fixer for the issue at `anchor`. -/
def Fixer.run (fixer : Fixer) (config : Config) (document : Document) (anchor : Span) :
    Except Refusal Fix :=
  match fixer with
  | .wrapParameters => SharpLint.wrapParameters config.style.indentSize document anchor
  | .removeField => SharpLint.removeField document anchor

/-- The fix for an issue that is reported under the name `rule` at `anchor`. -/
def fixFor (config : Config) (document : Document) (rule : String) (anchor : Span) :
    Except Refusal Fix :=
  match Fixer.for? rule with
  | some fixer => fixer.run config document anchor
  | none => .error (.unsupportedRule rule)

/-- The issues that one rule reports. -/
def Rule.issues (rule : Rule) (config : Config) (document : Document) : List Issue :=
  match rule with
  | .constructorLength => constructorLengthIssues config.style.maxLineLength document
  | .unreadField => unreadFieldIssues document

/-- The issues of a document in the order of their spans; issues that start at
    one place stay in the order of their rules. -/
def check (config : Config) (document : Document) : List Issue :=
  sortBy (fun a b => a.span.start ≤ b.span.start)
    (config.enabledRules.flatMap fun rule => rule.issues config document)

/-- The issue with its fix, where there is a safe one. -/
def Issue.withFix (config : Config) (document : Document) (issue : Issue) : Issue :=
  { issue with fix := (fixFor config document issue.rule.id issue.span).toOption }

/-- The issues of a document. In a document with errors no fix is safe. -/
def analyzeDocument (config : Config) (document : Document) : List Issue :=
  let issues := check config document
  if document.hasErrors then issues else issues.map (Issue.withFix config document)

/-- The issues of a source. -/
def analyze (config : Config) (source : Text) : List Issue :=
  analyzeDocument config (.parse source)

/-- At most `passes` rounds of analysis and fixing. `applied` counts the fixes
    applied so far. A round that finds no fix or changes nothing is the
    last. -/
def fixRounds (config : Config) : Nat → Text → Nat → Text × Nat
  | 0, source, applied => (source, applied)
  | passes + 1, source, applied =>
    let fixes := (analyze config source).filterMap Issue.fix
    if fixes.isEmpty then (source, applied)
    else
      let (fixed, taken) := Batch.run source fixes
      if fixed = source then (source, applied + taken)
      else fixRounds config passes fixed (applied + taken)

/-- The source with all fixes applied, and how many there were. -/
def fixSource (config : Config) (source : Text) : Text × Nat :=
  fixRounds config config.autofix.maxPasses source 0

end SharpLint
