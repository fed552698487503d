import SharpLint.Lint.ConstructorLength
import SharpLint.Lint.Fixer

/-!
# Wrapping Parameters

The fix for a long constructor line puts each parameter on a line of its own,
indented below the signature. Only the gaps before the parameters are
replaced: their blanks go, their comments stay.

## Main definitions

* `leadingText`: what stands before a wrapped parameter.
* `wrapParameters`: the fix.
-/

namespace SharpLint

/-- A line break, the indent, and the comments of the list that lie in the
    gap, each ended so that what follows stays code. -/
def leadingText (document : Document) (list : Place) (gap : Span) (indent : Text) : Text :=
  let comments := list.descendants.filter fun node => node.isA .comment && node.span.within gap
  '\n' :: indent ++ comments.flatMap fun comment =>
    let text := Text.trimEnd (document.textOf comment)
    if Text.startsWith text ['/', '/'] then text ++ '\n' :: indent else text ++ [' ']

/-- The comma behind a parameter, before the next one. -/
def separatorAfter? (parameter : Place) : Option Place :=
  match parameter.following.find? fun node => node.isA (.token ",") || node.isA .parameter with
  | some node => if node.isA (.token ",") then some node else none
  | none => none

/-- One edit for the gap before each parameter; the first gap starts at
    `gapStart`. -/
def wrapEdits (document : Document) (list : Place) (indent : Text) (gapStart : Nat) :
    List Place → List Edit
  | [] => []
  | parameter :: parameters =>
    let gap : Span := ⟨gapStart, parameter.start⟩
    let next :=
      match separatorAfter? parameter with
      | some comma => comma.stop
      | none => parameter.stop
    ⟨gap, leadingText document list gap indent⟩
      :: wrapEdits document list indent next parameters

/-- The fix for the constructor whose parameter list is at `anchor`. -/
def wrapParameters (indentWidth : Nat) (document : Document) (anchor : Span) :
    Except Refusal Fix :=
  match document.root.at? anchor .parameterList with
  | none => .error (.unexpectedAnchor .parameterList)
  | some list =>
    match list.parent? with
    | none => .error (.missingParent .constructor)
    | some constructor =>
      if constructor.isA .constructorDeclaration then
        if list.parameters.isEmpty then .error .emptyParameterList
        else
          let column :=
            (document.source.column? document.lines constructor.signatureStart).getD 0
          let indent := List.replicate (column + indentWidth) ' '
          Fixer.wrapParameters.fix
            (wrapEdits document list indent (list.start + 1) list.parameters)
      else .error (.missingParent .constructor)

end SharpLint
