/-!
# Configuration

What a user may choose: the files left out of a walk, the rules that run, the
style they ask for, and how fixes are applied and files are read.

## Main definitions

* `Config`: all choices, each with its default.
-/

namespace SharpLint

/-- Which rules run. -/
structure RuleChoice where
  checkConstructorLength : Bool := true
  checkUnreadFields : Bool := true
  deriving DecidableEq, Repr, Inhabited

/-- The style that the rules ask for. -/
structure StyleChoice where
  /-- The most characters that the line of a constructor may have. -/
  maxLineLength : Nat := 100
  /-- How far wrapped parameters are indented. -/
  indentSize : Nat := 4
  deriving DecidableEq, Repr, Inhabited

/-- How fixes are applied. -/
structure FixChoice where
  enabled : Bool := true
  /-- The most rounds of analysis and fixing for one file. -/
  maxPasses : Nat := 32
  deriving DecidableEq, Repr, Inhabited

/-- How files are read. -/
structure ReadChoice where
  parallelAnalysis : Bool := true
  memoryMapped : Bool := true
  deriving DecidableEq, Repr, Inhabited

/-- All that a user may choose. -/
structure Config where
  /-- Patterns of the files left out of a walk. -/
  ignore : List String := ["bin/**", "obj/**"]
  rules : RuleChoice := {}
  style : StyleChoice := {}
  autofix : FixChoice := {}
  performance : ReadChoice := {}
  deriving DecidableEq, Repr, Inhabited

end SharpLint
