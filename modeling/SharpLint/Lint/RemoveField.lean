import SharpLint.Lint.ConstructorLength
import SharpLint.Lint.Fixer
import SharpLint.Lint.UnreadField

/-!
# Removing Unread Fields

The fix for an unread field removes its declaration, the statements that
assign it, and the parameters that fed nothing but those statements. It is
refused as long as anything else mentions the field.

## Main definitions

* `removalsFromList`: the spans that take items out of a list.
* `statementRemoval`, `memberRemoval`: the spans that take a statement or a
  member out of its lines.
* `removeField`: the fix.
-/

namespace SharpLint

/-- The position of the last item that is kept. -/
def lastKept? (removed : List Bool) : Option Nat :=
  ((removed.zipIdx.filter fun item => !item.1).getLast?).map Prod.snd

/-- The spans from each flagged item up to the item behind it. -/
def leadingRemovals : List (Span × Bool) → List Span
  | (item, flag) :: (next, flag') :: rest =>
    let further := leadingRemovals ((next, flag') :: rest)
    if flag then ⟨item.start, next.start⟩ :: further else further
  | _ => []

/-- The spans that take the flagged items out of a list with commas. An item
    before a kept one goes up to the item behind it; the items behind the last
    kept one go with the comma before them. -/
def removalsFromList (items : List Span) (removed : List Bool) : List Span :=
  if removed.any id then
    match lastKept? removed, items.head?, items.getLast? with
    | none, some first, some last => [⟨first.start, last.stop⟩]
    | some kept, _, some last =>
      let leading := leadingRemovals ((items.zip removed).take (kept + 1))
      match items[kept]? with
      | some item => if kept + 1 < items.length then leading ++ [⟨item.stop, last.stop⟩] else leading
      | none => leading
    | _, _, _ => []
  else []

/-- All lines of a node that stands on lines of its own; otherwise the node
    with the padding behind it. -/
def statementRemoval (document : Document) (node : Place) : Span :=
  let firstLine := document.lines.line node.start
  let lastLine := document.lines.line node.stop
  let lineStart := document.lines.start firstLine
  let lineStop := (document.source.lineRange document.lines lastLine).stop
  let before := document.source.slice ⟨lineStart, node.start⟩
  let after := document.source.slice ⟨node.stop, lineStop⟩
  if Text.isBlank before && Text.isBlank after then
    ⟨lineStart, document.lines.start (lastLine + 1)⟩
  else ⟨node.start, node.stop + Text.size (after.takeWhile Text.isPadding)⟩

/-- The start of the topmost of the comments that stand on lines of their own
    directly above `start`, taken from the siblings nearest first. -/
def commentsStart (document : Document) (start : Nat) : List Place → Nat
  | [] => start
  | sibling :: siblings =>
    if sibling.isA .comment then
      let lineStart := document.lines.start (document.lines.line sibling.start)
      if Text.isBlank (document.source.slice ⟨lineStart, sibling.start⟩)
          && document.lines.line sibling.stop + 1 == document.lines.line start then
        commentsStart document lineStart siblings
      else start
    else start

/-- The removal of a member, with the comments directly above it when it
    stands on lines of its own. -/
def memberRemoval (document : Document) (member : Place) : Span :=
  let span := statementRemoval document member
  if span.start = member.start then span
  else ⟨commentsStart document span.start member.preceding, span.stop⟩

/-- The edit that removes a span. -/
def Edit.remove (span : Span) : Edit :=
  ⟨span, []⟩

/-- The edit that removes a dead statement. An expression body becomes an
    empty block. -/
def deadStatementEdit (document : Document) (constructor : Place) (dead : DeadStatement) : Edit :=
  if dead.isBody then ⟨⟨dead.statement.start, constructor.stop⟩, ['{', ' ', '}']⟩
  else .remove (statementRemoval document dead.statement)

/-- The parameter of the constructor that a dead statement assigns. -/
def fedParameter? (constructor : Place) (dead : DeadStatement) : Option Symbol :=
  match dead.assignment.labelled? .right with
  | none => none
  | some right =>
    if right.isA .identifier then
      match right.resolve? with
      | some (.parameter owner index name) =>
        if owner = constructor.span then some (.parameter owner index name) else none
      | _ => none
    else none

/-- Whether all references to a parameter are in dead statements, and there is
    one at all. -/
def feedsOnlyDead (writes : ConstructorWrites) (parameter : Symbol) : Bool :=
  let references := writes.constructor.references parameter
  !references.isEmpty && references.all (FieldUsage.within [writes])

/-- For each parameter of the constructor whether it goes. -/
def removedParameters (writes : ConstructorWrites) (count : Nat) : List Bool :=
  let candidates := writes.statements.filterMap (fedParameter? writes.constructor)
  (List.range count).map fun n =>
    candidates.any fun candidate =>
      match candidate with
      | .parameter _ index _ => index == n && feedsOnlyDead writes candidate
      | _ => false

/-- The edits that remove parameters from a list. A list that loses all of
    them becomes empty. -/
def parameterEdits (list : Place) (removed : List Bool) : List Edit :=
  if !removed.isEmpty && removed.all id then [.remove ⟨list.start + 1, list.stop - 1⟩]
  else (removalsFromList (list.parameters.map Place.span) removed).map .remove

/-- The edits in one constructor. -/
def constructorEdits (document : Document) (writes : ConstructorWrites) : List Edit :=
  writes.statements.map (deadStatementEdit document writes.constructor)
    ++ match writes.constructor.ownParameterList? with
      | some list => parameterEdits list (removedParameters writes list.parameters.length)
      | none => []

/-- The edits that remove a declarator, with its declaration when it is the
    only one in it. -/
def declaratorEdits (document : Document) (field declaration declarator : Place) : List Edit :=
  let declarators := declaration.childrenOf .variableDeclarator
  if 1 < declarators.length then
    (removalsFromList (declarators.map Place.span)
      (declarators.map fun other => other.same declarator)).map .remove
  else [.remove (memberRemoval document field)]

/-- The parent of the place, if it is of the given kind. -/
def Place.parentOf? (place : Place) (kind : Kind) : Option Place :=
  match place.parent? with
  | some parent => if parent.isA kind then some parent else none
  | none => none

/-- The fix for the field whose name is at `anchor`. -/
def removeField (document : Document) (anchor : Span) : Except Refusal Fix := do
  let some name := document.root.at? anchor .identifier
    | .error (.unexpectedAnchor .fieldName)
  let some declarator := name.parentOf? .variableDeclarator
    | .error (.unexpectedAnchor .fieldDeclarator)
  let some declaration := declarator.parentOf? .variableDeclaration
    | .error (.missingParent .variableDeclaration)
  let some field := declaration.parentOf? .fieldDeclaration
    | .error (.missingParent .fieldDeclaration)
  let some type := field.enclosingType?
    | .error (.missingParent .typeDeclaration)
  let some symbol := name.resolve?
    | .error .unresolvedSymbol
  if !symbol.isField then .error .unresolvedSymbol
  let usage := FieldUsage.collect type symbol
  if usage.constructorWrites.isEmpty then .error .noConstructorAssignment
  if !usage.reads.isEmpty || !usage.otherWrites.isEmpty then
    .error (.fieldStillReferenced symbol.name)
  Fixer.removeField.fix
    (usage.constructorWrites.flatMap (constructorEdits document)
      ++ declaratorEdits document field declaration declarator)

end SharpLint
