import SharpLint.Semantics.Scope

/-!
# Usage of Fields

Every mention of a field inside its type is a read or a write. A plain
assignment to the field that makes up a whole statement of a constructor is
dead when nothing reads the field.

## Main definitions

* `Place.writeTarget?`: the plain assignment that a mention is the target of.
* `DeadStatement`: a statement of a constructor that only assigns a field.
* `FieldUsage`: the mentions of a field, sorted into reads and writes.
* `FieldUsage.isUnread`: whether a constructor writes and nothing reads.
-/

namespace SharpLint

namespace Place

/-- The operator of an assignment. -/
def operator? (assignment : Place) : Option Place :=
  (assignment.labelled? .operator).or ((assignment.labelled? .left).bind next?)

/-- Whether the place is an assignment with a plain `=`. -/
def isPlainAssignment (place : Place) : Bool :=
  place.isA .assignmentExpression
    && (match place.operator? with
      | some operator => operator.lexeme == "="
      | none => false)

/-- Whether the place is a plain assignment with `target` on its left side. -/
def assignsTo (assignment target : Place) : Bool :=
  assignment.isPlainAssignment && target.plays assignment .left

/-- The plain assignment whose left side is the mention, alone or as the name
    of a member. -/
def writeTarget? (mention : Place) : Option Place :=
  match mention.parent? with
  | none => none
  | some parent =>
    if parent.isA .memberAccessExpression && mention.plays parent .name then
      match parent.parent? with
      | none => none
      | some assignment => if assignment.assignsTo parent then some assignment else none
    else if parent.assignsTo mention then some parent
    else none

/-- The name that an expression ends with, when it is a name or a member. -/
def targetName? (expression : Place) : Option Place :=
  if expression.isA .identifier then some expression
  else if expression.isA .memberAccessExpression then expression.labelled? .name
  else none

/-- Whether the expression is a plain assignment to the field. -/
def assignsField (expression : Place) (field : Symbol) : Bool :=
  expression.isPlainAssignment
    && (match (expression.labelled? .left).bind targetName? with
      | some name => name.resolve? == some field
      | none => false)

/-- The first child that is no plain token and no comment. -/
def content? (place : Place) : Option Place :=
  place.namedChildren.find? fun child => !child.isA .comment

/-- The names in a type that may refer to its field: those that resolve to it,
    and the members of that name of other objects, which may be objects of the
    type. -/
def mentions (type : Place) (field : Symbol) : List Place :=
  type.descendants.filter fun name =>
    name.isA .identifier && name.lexeme == field.name
      && (match name.role with
        | .declaration | .nonExpression => false
        | .foreignMember => true
        | .thisMember | .simple => name.resolve? == some field)

end Place

/-- A statement of a constructor that does nothing but assign a field. -/
structure DeadStatement where
  /-- The statement, or the body of a constructor that is one expression. -/
  statement : Place
  assignment : Place
  /-- Whether the statement is the whole body of its constructor. -/
  isBody : Bool

/-- The statements of one constructor that only assign a field. -/
structure ConstructorWrites where
  constructor : Place
  statements : List DeadStatement

/-- The statements of a constructor that only assign the field. -/
def deadStatements (constructor : Place) (field : Symbol) : List DeadStatement :=
  match constructor.body? with
  | none => []
  | some body =>
    if body.isA .arrowExpressionClause then
      match body.content? with
      | some expression =>
        if expression.assignsField field then [⟨body, expression, true⟩] else []
      | none => []
    else
      (body.childrenOf .expressionStatement).filterMap fun statement =>
        match statement.content? with
        | some expression =>
          if expression.assignsField field then some ⟨statement, expression, false⟩ else none
        | none => none

/-- The mentions of a field inside its type. -/
structure FieldUsage where
  /-- The constructors that have dead statements. -/
  constructorWrites : List ConstructorWrites
  reads : List Place
  /-- The writes outside the dead statements. -/
  otherWrites : List Place

namespace FieldUsage

/-- The dead statements of all constructors of a type. -/
def writesOf (type : Place) (field : Symbol) : List ConstructorWrites :=
  type.constructors.filterMap fun constructor =>
    match deadStatements constructor field with
    | [] => none
    | statements => some ⟨constructor, statements⟩

/-- Whether the place lies in one of the dead statements. -/
def within (writes : List ConstructorWrites) (place : Place) : Bool :=
  writes.any fun write => write.statements.any fun dead =>
    place.span.within dead.statement.span

/-- The usage of a field of a type. -/
def collect (type : Place) (field : Symbol) : FieldUsage :=
  let writes := writesOf type field
  let (targets, reads) := (type.mentions field).partition fun mention =>
    mention.writeTarget?.isSome
  ⟨writes, reads, targets.filter fun mention => !within writes mention⟩

/-- Whether a constructor assigns the field and nothing reads it. -/
def isUnread (usage : FieldUsage) : Bool :=
  !usage.constructorWrites.isEmpty && usage.reads.isEmpty

end FieldUsage

end SharpLint
