import SharpLint.Edit.Basic
import SharpLint.Edit.Tidy

/-!
# Fixes

A fix is a titled batch of edits that repairs one issue. A fixer that cannot
prove its edits safe refuses, and says why.

## Main definitions

* `Fix`: a title, a key that groups fixes of one kind, and the edits.
* `Refusal`: why no fix is offered or applied.
* `Fix.ofEdits`: a fix from planned edits, refused when they overlap.
* `Fix.apply`: the text after the fix.
-/

namespace SharpLint

/-- A place in a source that a fixer looks for. -/
inductive Landmark
  | fieldName
  | fieldDeclarator
  | parameterList
  | variableDeclaration
  | fieldDeclaration
  | typeDeclaration
  | constructor
  deriving DecidableEq, Repr

/-- The landmark in words. -/
def Landmark.describe : Landmark → String
  | .fieldName => "field name"
  | .fieldDeclarator => "field declarator"
  | .parameterList => "parameter list"
  | .variableDeclaration => "variable declaration"
  | .fieldDeclaration => "field declaration"
  | .typeDeclaration => "type declaration"
  | .constructor => "constructor"

/-- Why no edit is made. -/
inductive Refusal
  | unexpectedAnchor (wanted : Landmark)
  | emptyParameterList
  | missingParent (wanted : Landmark)
  | unresolvedSymbol
  | noConstructorAssignment
  | fieldStillReferenced (field : String)
  | conflictingEdits
  | unsupportedRule (rule : String)
  deriving DecidableEq, Repr

/-- The reason in words. -/
def Refusal.message : Refusal → String
  | .unexpectedAnchor wanted => "anchor does not point at a " ++ wanted.describe
  | .emptyParameterList => "parameter list is empty"
  | .missingParent wanted => "no enclosing " ++ wanted.describe
  | .unresolvedSymbol => "symbol could not be resolved"
  | .noConstructorAssignment => "field is not assigned by any constructor"
  | .fieldStillReferenced field =>
    "field `" ++ field ++ "` is still referenced outside the removed assignments"
  | .conflictingEdits => "edits overlap or fall outside the document"
  | .unsupportedRule rule => "rule " ++ rule ++ " has no fix"

/-- Edits that together repair one issue. -/
structure Fix where
  title : String
  /-- Fixes of the same kind have the same key. -/
  key : String
  edits : List Edit
  deriving DecidableEq, Repr

namespace Fix

/-- A fix that makes the planned edits, in order; refused when two overlap. -/
def ofEdits (title key : String) (planned : List Edit) : Except Refusal Fix :=
  let edits := Edit.inOrder planned
  if Edit.overlapping edits then .error .conflictingEdits else .ok ⟨title, key, edits⟩

/-- The text after `edits`, the lines that they touched tidied. -/
def applyEdits (text : Text) (edits : List Edit) : Except Refusal Text :=
  match Edit.splice? text edits with
  | some (spliced, touched) => .ok (tidy spliced touched)
  | none => .error .conflictingEdits

/-- The text after the fix. -/
def apply (text : Text) (fix : Fix) : Except Refusal Text :=
  applyEdits text fix.edits

end Fix

end SharpLint
