import SharpLint.Semantics.Symbol

/-!
# Scopes

A name in an expression stands for what the innermost scope around it
declares under that name. Scopes are the ancestors of the name: blocks,
statements with variables of their own, functions and types.

## Main definitions

* `Place.fieldDeclarators`, `Place.constructors`: what a type declares.
* `Place.declared?`: the symbol that a declaring name declares.
* `Place.lookup?`: what one scope declares under a name.
* `Place.resolve?`: the symbol that a name stands for.
* `Place.references`: the names in a scope that refer to a symbol.
-/

namespace SharpLint

namespace Place

/-- The nodes directly in the body of a type declaration. -/
def members (type : Place) : List Place :=
  match type.firstOf? .declarationList with
  | some body => body.namedChildren
  | none => []

/-- The declarators of the fields declared directly in a type. -/
def fieldDeclarators (type : Place) : List Place :=
  (type.members.filter (·.isA .fieldDeclaration)).flatMap fun field =>
    match field.firstOf? .variableDeclaration with
    | some declaration => declaration.childrenOf .variableDeclarator
    | none => []

/-- The constructors declared directly in a type. -/
def constructors (type : Place) : List Place :=
  type.members.filter (·.isA .constructorDeclaration)

/-- The parameters of a parameter list. -/
def parameters (list : Place) : List Place :=
  list.childrenOf .parameter

/-- The block or the expression behind an arrow, whichever a member has. -/
def body? (member : Place) : Option Place :=
  member.namedChildren.find? fun child => child.isA .block || child.isA .arrowExpressionClause

/-- The texts of the modifiers of a declaration. -/
def modifiers (declaration : Place) : List String :=
  (declaration.childrenOf .modifier).map lexeme

/-- Whether the place is named `name`. -/
def isNamed (place : Place) (name : String) : Bool :=
  match place.name? with
  | some found => found.lexeme == name
  | none => false

/-- The type declaration around the place. -/
def enclosingType? (place : Place) : Option Place :=
  place.ancestor? Kind.isTypeDeclaration

/-- The symbol of a declarator: a field, or else a variable. -/
def declaratorSymbol? (declarator : Place) (name : String) : Option Symbol :=
  match declarator.parent?.bind parent? with
  | none => none
  | some owner =>
    if owner.isA .fieldDeclaration then
      owner.enclosingType?.map fun type => .field type.span name
    else some (.variable declarator.span name)

/-- The symbol of a parameter in a list. -/
def parameterSymbol? (parameter : Place) (name : String) : Option Symbol :=
  match parameter.parent? with
  | none => none
  | some list =>
    match list.parent?, list.parameters.findIdx? (·.same parameter) with
    | some owner, some index => some (.parameter owner.span index name)
    | _, _ => none

/-- The symbol that a declaring name declares. -/
def declared? (name : Place) : Option Symbol :=
  match name.parent? with
  | none => none
  | some parent =>
    match parent.kind with
    | .variableDeclarator => parent.declaratorSymbol? name.lexeme
    | .parameter => parent.parameterSymbol? name.lexeme
    | .lambdaExpression => some (.parameter parent.span 0 name.lexeme)
    | _ => some (.variable parent.span name.lexeme)

/-- The variable that a statement declares under `name`. -/
def lookupDeclarators? (statement : Place) (name : String) : Option Symbol :=
  match statement.firstOf? .variableDeclaration with
  | none => none
  | some declaration =>
    ((declaration.childrenOf .variableDeclarator).find? (·.isNamed name)).map fun declarator =>
      .variable declarator.span name

/-- The parameter of `owner` that is called `name` in `list`. -/
def lookupParameters? (owner list : Place) (name : String) : Option Symbol :=
  (list.parameters.findIdx? (·.isNamed name)).map fun index => .parameter owner.span index name

/-- The parameter called `name` in the parameter list of `owner`. -/
def lookupOwnParameters? (owner : Place) (name : String) : Option Symbol :=
  match owner.firstOf? .parameterList with
  | some list => owner.lookupParameters? list name
  | none => none

/-- The field called `name` of a type. -/
def lookupField? (type : Place) (name : String) : Option Symbol :=
  if type.fieldDeclarators.any (·.isNamed name) then some (.field type.span name) else none

/-- Whether the place is an argument or a pattern that declares a variable of
    the block. -/
def declaresIn (place block : Place) : Bool :=
  (place.isA .declarationExpression || place.isA .declarationPattern)
    && (match place.ancestor? (· == .block) with
      | some nearest => nearest.same block
      | none => false)

/-- The variable that a block declares under `name`: in a statement, or else
    in an argument or a pattern. -/
def lookupBlock? (block : Place) (name : String) : Option Symbol :=
  match (block.childrenOf .localDeclarationStatement).findSome? (·.lookupDeclarators? name) with
  | some symbol => some symbol
  | none =>
    ((block.descendants.filter (·.declaresIn block)).find? (·.isNamed name)).map fun found =>
      .variable found.span name

/-- The parameter of a lambda that is called `name`. -/
def lookupLambda? (lambda : Place) (name : String) : Option Symbol :=
  match lambda.labelled? .parameters with
  | none => none
  | some parameters =>
    if parameters.isA .identifier || parameters.isA .implicitParameter then
      if parameters.lexeme = name then some (.parameter lambda.span 0 name) else none
    else lambda.lookupParameters? parameters name

/-- What a scope declares under `name`. -/
def lookup? (scope : Place) (name : String) : Option Symbol :=
  match scope.kind with
  | .block => scope.lookupBlock? name
  | .forStatement | .usingStatement => scope.lookupDeclarators? name
  | .foreachStatement =>
    match scope.labelled? .left with
    | some left =>
      if left.isA .identifier && left.lexeme == name then some (.variable scope.span name) else none
    | none => none
  | .catchClause =>
    match scope.firstOf? .catchDeclaration with
    | some declaration =>
      if declaration.isNamed name then some (.variable declaration.span name) else none
    | none => none
  | .lambdaExpression => scope.lookupLambda? name
  | kind =>
    if kind.isTypeDeclaration then (scope.lookupField? name).or (scope.lookupOwnParameters? name)
    else scope.lookupOwnParameters? name

/-- What the innermost scope around the place declares under `name`. -/
def resolveSimple? (place : Place) (name : String) : Option Symbol :=
  place.ancestors.findSome? (·.lookup? name)

/-- The symbol that a name declares or refers to. -/
def resolve? (name : Place) : Option Symbol :=
  if name.isA .identifier then
    match name.role with
    | .declaration => name.declared?
    | .thisMember =>
      match name.enclosingType? with
      | some type => type.lookupField? name.lexeme
      | none => none
    | .foreignMember | .nonExpression => none
    | .simple => name.resolveSimple? name.lexeme
  else none

/-- The names in the scope that refer to the symbol; names that declare it are
    left out. -/
def references (scope : Place) (symbol : Symbol) : List Place :=
  scope.descendants.filter fun name =>
    name.isA .identifier && name.lexeme == symbol.name && name.role != .declaration
      && name.resolve? == some symbol

end Place

end SharpLint
