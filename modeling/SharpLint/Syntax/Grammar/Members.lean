import SharpLint.Syntax.Grammar.Statements

/-!
# Declarations

## Main definitions

* `member`: a declaration in a type or a namespace.
* `item`: what may stand at the top of a source.
* `conditional`: parts that are read under a condition.
* `unit`: a whole source.
-/

namespace SharpLint

namespace Grammar

open Form

/-! ### Attributes and parameters -/

def attributeArgument : Form :=
  node .attributeArgument
    (seq (opt (seq identifier (alt (sign "=") (sign ":")))) expression)

def annotation : Form :=
  node .attribute
    (seq (label .name name)
      (opt (node .attributeArgumentList
        (bracketed "(" ")" (opt (sepBy attributeArgument (sign ",")))))))

def attributeTarget : Form :=
  node .attributeTargetSpecifier
    (seq (anyWord ["field", "event", "method", "param", "property", "return", "type"]) (sign ":"))

def attributeList : Form :=
  node .attributeList
    (bracketed "[" "]" (all [opt attributeTarget, sepBy annotation (sign ","), opt (sign ",")]))

def parameterModifier : Form :=
  alt (leafOf .modifier ["this", "ref", "out", "in", "readonly"])
    (seq (leafOf .modifier ["scoped"]) (ahead (alt (anyWord ["ref", "in", "out"])
      (seq (call .type) designator))))

def parameter : Form :=
  node .parameter
    (all [attributeLists, many parameterModifier,
      alt (seq (label .type (call .type)) nameLabel) nameLabel,
      opt (seq (sign "=") expression)])

/-- The parameter that takes all further arguments has no node of its own. -/
def parameterArray : Form :=
  all [attributeLists, word "params", label .type (call .type), nameLabel]

def parameters : Form := sepBy (alt parameterArray parameter) (sign ",")

def parameterList : Form := node .parameterList (bracketed "(" ")" (opt parameters))

def bracketedParameterList : Form := node .bracketedParameterList (bracketed "[" "]" parameters)

/-! ### Types -/

def baseList : Form :=
  node .baseList
    (seq (sign ":")
      (sepBy
        (alt
          (node .primaryConstructorBaseType (seq (label .type name) (call .argumentList)))
          (call .type))
        (sign ",")))

/-- What follows the name of a type and may come in any order. -/
def typeHeader : Form :=
  many (any [typeParameterList, call .parameterList, baseList,
    node .typeParameterConstraintsClause
      (all [word "where", identifier, sign ":", sepBy typeParameterConstraint (sign ",")])])

def typeBody : Form :=
  alt (seq (call .declarationList) closingSemicolon) endMark

/-- The declaration of a type that begins with the given words. -/
def typeDeclaration (kind : Kind) (words : Form) : Form :=
  node kind (all [prelude, words, nameLabel, typeHeader, typeBody])

def typeDeclarations : List Form := [
    typeDeclaration .classDeclaration (word "class"),
    typeDeclaration .structDeclaration (seq (opt (seq (word "ref") modifiers)) (word "struct")),
    typeDeclaration .interfaceDeclaration (word "interface"),
    typeDeclaration .recordDeclaration
      (all [word "record", opt (anyWord ["class", "struct"]),
        ahead (seq identifier (any [bareSign "(", bareSign "\x7b", bareSign ":", bareSign ";",
          bareSign "<", word "where"]))])]

def enumMember : Form :=
  node .enumMemberDeclaration
    (all [attributeLists, nameLabel, opt (seq (sign "=") expression)])

def enumDeclaration : Form :=
  node .enumDeclaration
    (all [prelude, word "enum", nameLabel,
      opt (node .baseList (seq (sign ":") (call .type))),
      node .enumMemberDeclarationList
        (bracketed "\x7b" "\x7d" (many (seq (call (.part .enumMembers)) (opt (sign ","))))),
      closingSemicolon])

def delegateDeclaration : Form :=
  node .delegateDeclaration
    (all [prelude, word "delegate", label .type (call .type), nameLabel, opt typeParameterList,
      parametersLabel, typeParameterConstraints, endMark])

/-! ### Members -/

/-- The interface that a member is declared for, with the dot behind it. -/
def interfaceSpecifier : Form :=
  node .explicitInterfaceSpecifier
    (seq
      (grow (alt aliasQualified simpleName)
        (node .qualifiedName
          (all [sign ".", label .name simpleName, ahead (sign ".")])))
      (sign "."))

def typeLabel : Form := label .type (call .type)

def accessorList : Form :=
  node .accessorList
    (bracketed "\x7b" "\x7d"
      (many (node .accessorDeclaration
        (all [prelude, label .name (anyWord ["get", "set", "init", "add", "remove"]),
          call .functionBody]))))

def constructorInitializer : Form :=
  node .constructorInitializer
    (all [sign ":", anyWord ["base", "this"], call .argumentList])

def constructorDeclaration : Form :=
  node .constructorDeclaration
    (all [prelude, nameLabel, parametersLabel, opt constructorInitializer, call .functionBody])

def destructorDeclaration : Form :=
  node .destructorDeclaration
    (all [prelude, sign "~", nameLabel, parametersLabel, call .functionBody])

def methodDeclaration : Form :=
  node .methodDeclaration
    (all [prelude, label .returns (call .type), opt interfaceSpecifier, nameLabel,
      opt typeParameterList, parametersLabel, typeParameterConstraints, call .functionBody])

def operatorDeclaration : Form :=
  node .operatorDeclaration
    (all [prelude, typeLabel, opt interfaceSpecifier, word "operator", opt (word "checked"),
      alt
        (any (["==", "!=", ">=", "<=", "<<", ">>>", ">>", "++", "--", "!", "~", "+", "-", "*", "/", "%",
          "^", "|", "&", ">", "<"].map bareSign))
        (anyWord ["true", "false"]),
      parametersLabel, call .functionBody])

def conversionDeclaration : Form :=
  node .conversionOperatorDeclaration
    (all [prelude, anyWord ["implicit", "explicit"], opt interfaceSpecifier, word "operator",
      opt (word "checked"), typeLabel, parametersLabel, call .functionBody])

def eventDeclarations : List Form := [
    node .eventDeclaration
      (all [prelude, word "event", typeLabel, opt interfaceSpecifier, nameLabel, accessorList]),
    node .eventFieldDeclaration
      (all [prelude, word "event", call .variableDeclaration, endMark])]

def indexerDeclaration : Form :=
  node .indexerDeclaration
    (all [prelude, typeLabel, opt interfaceSpecifier, word "this", bracketedParameterList,
      alt accessorList (seq arrow endMark)])

def propertyDeclaration : Form :=
  node .propertyDeclaration
    (all [prelude, typeLabel, opt interfaceSpecifier, nameLabel,
      alt (seq accessorList (opt (all [sign "=", expression, endMark]))) (seq arrow endMark)])

def fieldDeclaration : Form :=
  node .fieldDeclaration (all [prelude, call .variableDeclaration, endMark])

def usingDirective : Form :=
  node .usingDirective
    (all [opt (word "global"), word "using",
      alt
        (all [opt (word "unsafe"), nameLabel, sign "=", call .type])
        (all [opt (word "static"), opt (word "unsafe"), name]),
      endMark])

def namespaceDeclaration : Form :=
  node .namespaceDeclaration
    (all [word "namespace", label .name name, call .declarationList, closingSemicolon])

def externAlias : Form :=
  node .externAliasDirective (all [word "extern", word "alias", nameLabel, endMark])

/-- A declaration in a type or a namespace. -/
def member : Form :=
  any (typeDeclarations ++ [enumDeclaration, delegateDeclaration] ++ eventDeclarations ++ [
    constructorDeclaration, destructorDeclaration, methodDeclaration, propertyDeclaration,
    fieldDeclaration, indexerDeclaration, operatorDeclaration, conversionDeclaration,
    namespaceDeclaration, usingDirective, externAlias])

def declarationList : Form :=
  node .declarationList (bracketed "\x7b" "\x7d" (many (call (.part .members))))

/-! ### Sources -/

def globalAttribute : Form :=
  node .globalAttribute
    (bracketed "[" "]"
      (all [anyWord ["assembly", "module"], sign ":", sepBy annotation (sign ","),
        opt (sign ",")]))

/-- What may stand at the top of a source. -/
def item : Form :=
  any ([externAlias, usingDirective, globalAttribute, namespaceDeclaration,
    node .fileScopedNamespaceDeclaration
      (all [word "namespace", label .name name, endMark])]
    ++ typeDeclarations ++ [enumDeclaration, delegateDeclaration,
    node .globalStatement statement])

/-! ### Conditions -/

/-- The word of a directive, with the hash before it. -/
def directive (text : String) (gap : Gap) : Form :=
  token (.token ("#" ++ text)) (.directive text.toList) gap

def lineEnd : Form := token (.token "\n") (.mark ['\n'] []) .free

def lineSign (text : String) : Form :=
  token (.token text) (.mark text.toList (continuations text.toList)) .line

/-- The condition of a directive. -/
def condition : Form :=
  grow
    (any [
      node .unaryExpression (seq (lineSign "!") (call .condition)),
      node .parenthesizedExpression (all [lineSign "(", call .condition, lineSign ")"]),
      any (["true", "false"].map fun text => token .booleanLiteral (.word text.toList) .line),
      token .identifier .identifier .line])
    (node .binaryExpression
      (seq (label .operator (any (["||", "&&", "==", "!="].map lineSign)))
        (label .right (call .condition))))

/-- One part of the given stretch of source. -/
def part (section_ : Section) : Form :=
  alt (call (.conditional section_))
    (match section_ with
    | .items => item
    | .members => member
    | .statements => statement
    | .enumMembers => enumMember)

/-- The parts in a conditional directive; enumeration members are separated by
    commas there too. -/
def parts (section_ : Section) : Form :=
  many (seq (call (.part section_)) (if section_ = .enumMembers then opt (sign ",") else nothing))

/-- Parts that are read when no condition before them held. -/
def alternative (section_ : Section) : Form :=
  alt
    (node .preprocElif
      (all [directive "elif" .line, call .condition, lineEnd, parts section_,
        opt (call (.alternative section_))]))
    (node .preprocElse (seq (directive "else" .free) (parts section_)))

/-- Parts that are read under a condition. -/
def conditional (section_ : Section) : Form :=
  node .preprocIf
    (all [directive "if" .line, call .condition, lineEnd, parts section_,
      opt (call (.alternative section_)), directive "endif" .free])

/-- A whole source. -/
def unit : Form :=
  seq (many (call (.part .items))) (.unless (token .error .any .none))

/-! ### The language -/

/-- The form of every phrase of the language. -/
def csharp : Grammar
  | .unit => unit
  | .part section_ => part section_
  | .conditional section_ => conditional section_
  | .alternative section_ => alternative section_
  | .condition => condition
  | .attributeList => attributeList
  | .parameterList => parameterList
  | .argumentList => argumentList
  | .bracketedArgumentList => bracketedArgumentList
  | .declarationList => declarationList
  | .functionBody => functionBody
  | .block => statements
  | .statement => anyStatement
  | .type => type
  | .elementType => elementType
  | .typeArguments => typeArguments
  | .variableDeclaration => variableDeclaration
  | .tuplePattern => tuplePattern
  | .operand bare level => operand bare level
  | .unary bare => unary bare
  | .initializer => initializer
  | .interpolated => interpolated
  | .queryBody => queryBody
  | .pattern => pattern
  | .plainPattern => plainPattern
  | .designations => designations
  | .group => group
  | .debris => debris

/-- The language with the bodies of functions that fit no form. -/
def tolerant : Grammar
  | .functionBody => tolerantBody
  | phrase => csharp phrase

end Grammar

end SharpLint
