import SharpLint.Edit.Fix
import SharpLint.Syntax.Document

/-!
# Rules and Issues

A rule looks for one kind of flaw; an issue is one place where it was found,
with the fix for it, if there is a safe one.

## Main definitions

* `Severity`: how grave a flaw is.
* `Rule`: the rules, with their texts.
* `Issue`: a flaw at a place.
* `Issue.at`: the issue for a span of a document.
-/

namespace SharpLint

/-- How grave a flaw is. -/
inductive Severity
  | error
  | warning
  | info
  deriving DecidableEq, Repr, Inhabited

namespace Severity

/-- The severity in reports. -/
def name : Severity → String
  | .error => "error"
  | .warning => "warning"
  | .info => "info"

/-- The severity with a capital letter. -/
def title : Severity → String
  | .error => "Error"
  | .warning => "Warning"
  | .info => "Info"

/-- The level of a workflow annotation. -/
def annotationLevel : Severity → String
  | .error => "error"
  | .warning => "warning"
  | .info => "notice"

end Severity

/-- The kinds of flaws that are looked for. -/
inductive Rule
  /-- The line on which a constructor starts is too long. -/
  | constructorLength
  /-- A private field is assigned by a constructor and never read. -/
  | unreadField
  deriving DecidableEq, Repr, Inhabited

namespace Rule

/-- The name of the rule in reports. -/
def id : Rule → String
  | .constructorLength => "DS0001"
  | .unreadField => "DS0052"

/-- The rule in a few words. -/
def title : Rule → String
  | .constructorLength => "Constructor declaration line is too long"
  | .unreadField => "Private field is assigned but never read"

/-- The kind of flaw that the rule looks for. -/
def category : Rule → String
  | .constructorLength => "Formatting"
  | .unreadField => "Usage"

/-- How grave the flaws of the rule are. -/
def severity : Rule → Severity
  | .constructorLength => .info
  | .unreadField => .warning

/-- The rule in full. -/
def description : Rule → String
  | .constructorLength =>
    "The line a constructor declaration starts on is longer than the configured maximum. "
      ++ "Placing each parameter on its own line keeps signatures readable."
  | .unreadField =>
    "A private field is written by a constructor and never read anywhere in its type. "
      ++ "The field, its constructor assignments and any constructor parameters that only fed "
      ++ "those assignments can be removed."

end Rule

/-- Where an issue is reported: lines and columns count from one. -/
structure Location where
  line : Nat
  column : Nat
  endLine : Nat
  endColumn : Nat
  deriving DecidableEq, Repr, Inhabited

/-- A flaw found at a place. -/
structure Issue where
  rule : Rule
  message : String
  location : Location
  /-- The span that a fix starts from. -/
  span : Span
  fix : Option Fix := none
  deriving DecidableEq, Repr

/-- The location of a span of a document. -/
def Document.location (document : Document) (span : Span) : Location :=
  let position (offset : Nat) := (document.source.position? document.lines offset).getD (1, 1)
  let first := position span.start
  let last := position span.stop
  ⟨first.1, first.2, last.1, last.2⟩

/-- The issue that a rule reports at a span of a document. -/
def Issue.at (document : Document) (rule : Rule) (message : String) (span : Span) : Issue :=
  { rule, message, location := document.location span, span }

end SharpLint
