import SharpLint.Lint.Issue

/-!
# Fixers

## Main definitions

* `Fixer`: the fixes on offer.
* `Fixer.ruleIds`: the rules that a fixer repairs.
-/

namespace SharpLint

/-- What repairs the issues of some rules. -/
inductive Fixer
  /-- Puts each parameter of a constructor on a line of its own. -/
  | wrapParameters
  /-- Removes a field with what assigns it. -/
  | removeField
  deriving DecidableEq, Repr

namespace Fixer

/-- All fixers, in the order in which they are asked. -/
def all : List Fixer := [.wrapParameters, .removeField]

/-- The names of the rules whose issues the fixer repairs. An unread field may
    also be reported by the host of the analysis, under a name of its own. -/
def ruleIds : Fixer → List String
  | .wrapParameters => [Rule.constructorLength.id]
  | .removeField => [Rule.unreadField.id, "IDE0052"]

/-- The title of the fixes. -/
def title : Fixer → String
  | .wrapParameters => "Place each parameter on a new line"
  | .removeField => "Remove unread field and related parameter/assignment"

/-- The key by which the fixes are grouped. -/
def key : Fixer → String
  | .wrapParameters => Rule.constructorLength.id
  | .removeField => Rule.unreadField.id

/-- The fixer for the issues of a rule. -/
def for? (rule : String) : Option Fixer :=
  all.find? fun fixer => fixer.ruleIds.contains rule

/-- The fix that makes the planned edits. -/
def fix (fixer : Fixer) (edits : List Edit) : Except Refusal Fix :=
  SharpLint.Fix.ofEdits fixer.title fixer.key edits

end Fixer

end SharpLint
