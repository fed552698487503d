import SharpLint.Lint.Issue
import SharpLint.Semantics.Scope

/-!
# Long Constructor Lines

The line that a constructor's signature starts on may not be longer than the
limit. Only that line counts: a signature that is wrapped already is judged by
its first line.

## Main definitions

* `Place.signatureStart`: where a constructor's signature starts.
* `constructorLineLength?`: the length of a line that is too long.
* `constructorLengthIssues`: the issues of the rule.
-/

namespace SharpLint

namespace Place

/-- The byte at which a constructor's signature starts: its first modifier, or
    its name. The attributes before it are left out. -/
def signatureStart (constructor : Place) : Nat :=
  match (constructor.firstOf? .modifier).or (constructor.labelled? .name) with
  | some first => first.start
  | none => constructor.start

/-- The parameter list of a constructor. -/
def ownParameterList? (constructor : Place) : Option Place :=
  (constructor.labelled? .parameters).or (constructor.firstOf? .parameterList)

end Place

/-- The number of characters of the line that the constructor starts on, where
    there are more than `limit` and the constructor has parameters. -/
def constructorLineLength? (document : Document) (limit : Nat) (constructor : Place) :
    Option Nat :=
  match constructor.ownParameterList? with
  | none => none
  | some list =>
    if list.parameters.isEmpty then none
    else
      let line := document.lines.line constructor.signatureStart
      let length := (document.source.lineText document.lines line).length
      if limit < length then some length else none

/-- One issue for each constructor on too long a line. -/
def constructorLengthIssues (limit : Nat) (document : Document) : List Issue :=
  (document.root.descendants.filter (·.isA .constructorDeclaration)).filterMap fun constructor =>
    match constructorLineLength? document limit constructor, constructor.ownParameterList? with
    | some length, some list =>
      some (.at document .constructorLength
        ("Constructor declaration line is " ++ toString length ++ " characters long (maximum "
          ++ toString limit ++ ")")
        list.span)
    | _, _ => none

end SharpLint
