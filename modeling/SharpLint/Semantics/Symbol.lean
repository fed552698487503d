import SharpLint.Syntax.Tree

/-!
# Symbols and Roles

A symbol is what a name in a source stands for, identified by the span of the
node that declares it. The role of a name says how it stands in its parent,
and so whether it declares something, refers to something, or does neither.

## Main definitions

* `Symbol`: a field, a parameter or a local variable.
* `Role`: how a name stands in its parent.
* `Place.role`: the role of a name.
-/

namespace SharpLint

/-- What a name stands for. -/
inductive Symbol
  /-- A field of the type declared at `owner`. -/
  | field (owner : Span) (name : String)
  /-- Parameter number `index` of what is declared at `owner`. -/
  | parameter (owner : Span) (index : Nat) (name : String)
  /-- A variable declared at `declarator`. -/
  | variable (declarator : Span) (name : String)
  deriving DecidableEq, Repr, Inhabited

namespace Symbol

/-- The name of the symbol. -/
def name : Symbol → String
  | .field _ name => name
  | .parameter _ _ name => name
  | .variable _ name => name

/-- Whether the symbol is a field. -/
def isField : Symbol → Bool
  | .field .. => true
  | _ => false

end Symbol

/-- How a name stands in its parent. -/
inductive Role
  /-- Names what is being declared. -/
  | declaration
  /-- Names a member of the object at hand. -/
  | thisMember
  /-- Names a member of some other object. -/
  | foreignMember
  /-- Names a type, a namespace, a label and the like. -/
  | nonExpression
  /-- Stands alone in an expression. -/
  | simple
  deriving DecidableEq, Repr, Inhabited

namespace Kind

/-- Whether a name in a node of the kind, labelled so or not, declares what
    the node is for. -/
def declaresByName : Kind → Bool
  | .variableDeclarator | .parameter | .catchDeclaration | .declarationExpression
  | .declarationPattern => true
  | _ => false

/-- Whether no name directly in a node of the kind is part of an expression. -/
def holdsNoExpression : Kind → Bool
  | .qualifiedName | .aliasQualifiedName | .usingDirective | .namespaceDeclaration
  | .fileScopedNamespaceDeclaration | .attribute | .typeParameter | .typeArgumentList
  | .labeledStatement | .gotoStatement | .baseList => true
  | _ => false

end Kind

namespace Place

/-- Whether the place is the name of its parent, labelled so or not. -/
def isNameOf (place parent : Place) : Bool :=
  place.plays parent .name
    || (match parent.name? with
      | some name => name.same place
      | none => false)

/-- The role of a name that stands in `parent`. -/
def roleIn (name parent : Place) : Role :=
  if parent.isA .memberAccessExpression && name.plays parent .name then
    match parent.labelled? .expression with
    | some receiver => if receiver.lexeme = "this" then .thisMember else .foreignMember
    | none => .foreignMember
  else if parent.kind.declaresByName && name.isNameOf parent then .declaration
  else if parent.isA .foreachStatement && name.plays parent .left then .declaration
  else if parent.isA .lambdaExpression && name.plays parent .parameters then .declaration
  else if parent.kind.holdsNoExpression then .nonExpression
  else if name.plays parent .type || name.plays parent .returns then .nonExpression
  else if name.plays parent .name then .declaration
  else .simple

/-- The role of a name. -/
def role (name : Place) : Role :=
  match name.parent? with
  | some parent => name.roleIn parent
  | none => .nonExpression

end Place

end SharpLint
