import SharpLint.Lint.Issue
import SharpLint.Semantics.Usage

/-!
# Unread Fields

A private field that a constructor assigns and that nothing in its type reads
is of no use.

## Main definitions

* `Place.isPrivateField`: whether a declaration declares private fields.
* `unreadFieldIssues`: the issues of the rule.
-/

namespace SharpLint

/-- The modifiers that let others see a field, and the one of constants, which
    no constructor assigns. -/
def sharingModifiers : List String := ["const", "public", "protected", "internal", "file"]

/-- Whether a field declaration keeps its fields private: it says so or says
    nothing about access. Constants do not count. -/
def Place.isPrivateField (declaration : Place) : Bool :=
  declaration.isA .fieldDeclaration
    && !declaration.modifiers.any sharingModifiers.contains

/-- The issue for one declarator of a type, if its field is private and
    unread. -/
def unreadFieldIssue? (document : Document) (type declarator : Place) : Option Issue :=
  match declarator.parent?.bind Place.parent?, declarator.name? with
  | some declaration, some name =>
    if declaration.isPrivateField then
      match name.resolve? with
      | none => none
      | some field =>
        if (FieldUsage.collect type field).isUnread then
          some (.at document .unreadField
            ("Private field '" ++ field.name
              ++ "' is assigned in a constructor but its value is never read")
            name.span)
        else none
    else none
  | _, _ => none

/-- One issue for each private field that is unread. -/
def unreadFieldIssues (document : Document) : List Issue :=
  (document.root.descendants.filter (·.kind.isTypeDeclaration)).flatMap fun type =>
    type.fieldDeclarators.filterMap (unreadFieldIssue? document type)

end SharpLint
