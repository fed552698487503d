import SharpLint.Syntax.Grammar.Types

/-!
# Expressions

Operators bind at levels; an operand of level `n` is made with operators that
bind at least as tightly as `n`. An expression is an operand of the lowest
level. A bare operand ends before a lambda arrow: it stands where an arrow
that follows belongs to something else.

## Main definitions

* `expression`, `operand`, `unary`: expressions by how tightly they bind.
* `argumentList`: the arguments of a call.
* `initializer`: the elements or members in braces.
* `interpolated`: a string with holes.
* `queryBody`: a query behind its first clause.
-/

namespace SharpLint

namespace Grammar

open Form

/-- Any expression. -/
def expression : Form := call (.operand false 1)

def block : Form := call .block

/-! ### Names -/

/-- What stands behind type arguments that belong to an expression. -/
def afterTypeArguments : Form :=
  any [bareSign "(", bareSign ")", bareSign "]", bareSign "\x7d", bareSign ":", bareSign ";",
    bareSign ",", bareSign ".", bareSign "?", bareSign "==", bareSign "!=", bareSign "|",
    bareSign "^", bareSign "&&", bareSign "&", bareSign "\x7b"]

/-- A name in an expression; `<` begins type arguments only if they end well. -/
def valueName : Form :=
  alt (node .genericName (all [identifier, call .typeArguments, ahead afterTypeArguments]))
    identifier

/-! ### Arguments -/

/-- A variable declared where it is passed. -/
def declaredArgument (type : Form) : Form :=
  node .declarationExpression
    (all [label .type type, label .name designator, ahead (any [bareSign ",", bareSign ")",
      bareSign "]"])])

def argument : Form :=
  node .argument
    (all [opt (all [nameLabel, sign ":"]),
      any [all [word "out", alt (declaredArgument (call .type)) expression],
        all [anyWord ["ref", "in"], expression],
        declaredArgument valueType,
        expression]])

def arguments : Form := opt (sepBy argument (sign ","))

def argumentList : Form := node .argumentList (bracketed "(" ")" arguments)

def bracketedArgumentList : Form := node .bracketedArgumentList (bracketed "[" "]" arguments)

/-! ### Literals -/

def literal : Form :=
  any [token .realLiteral .real .free, token .integerLiteral .integer .free,
    token .characterLiteral .character .free, token .rawStringLiteral .raw .free,
    token .stringLiteral .string .free, token .verbatimStringLiteral .verbatim .free,
    leafOf .booleanLiteral ["true", "false"], leafOf .nullLiteral ["null"]]

/-- A hole in a string, opened and closed by the given signs. -/
def hole (first last : String) : Form :=
  node .interpolation
    (all [token .interpolationBrace (.mark first.toList []) .free, expression,
      opt (node .interpolationAlignmentClause (seq (sign ",") expression)),
      opt (node .interpolationFormatClause
        (seq (token (.token ":") (.mark [':'] []) .none) (token .stringContent .format .none))),
      token .interpolationBrace (.mark last.toList []) .none])

/-- A string with holes that is quoted in the given way. -/
def interpolatedWith (start finish first last : String) (quoting : Quoting) : Form :=
  node .interpolatedStringExpression
    (all [token .interpolationStart (.mark start.toList []) .none,
      many (alt (token .stringContent (.filling quoting) .none) (hole first last)),
      token .interpolationQuote (.mark finish.toList []) .free])

/-- A raw string whose holes are opened by `dollars` braces. -/
def rawInterpolated (dollars quotes : Nat) : Form :=
  let mark := String.ofList (List.replicate quotes '"')
  interpolatedWith (String.ofList (List.replicate dollars '$') ++ mark) mark
    (String.ofList (List.replicate dollars '{')) (String.ofList (List.replicate dollars '}'))
    (.raw dollars quotes)

def interpolated : Form :=
  any [rawInterpolated 1 4, rawInterpolated 2 4, rawInterpolated 1 3, rawInterpolated 2 3,
    rawInterpolated 3 3,
    interpolatedWith "$\"" "\"" "\x7b" "\x7d" .plain,
    interpolatedWith "$@\"" "\"" "\x7b" "\x7d" .verbatim,
    interpolatedWith "@$\"" "\"" "\x7b" "\x7d" .verbatim]

/-- Anything balanced in round brackets. -/
def group : Form :=
  bracketed "(" ")"
    (many (any [call .group, literal, call .interpolated, identifier,
      seq (.unless (bareSign ")")) (token (.token "") .any .free)]))

/-! ### Creations -/

def initializer : Form := node .initializerExpression (bracketed "\x7b" "\x7d" (commaList expression))

/-- The member of an object without a type of its own. -/
def anonymousMember : Form :=
  alt (all [identifier, sign "=", expression]) expression

/-- An array type with sizes. -/
def sizedArray : Form :=
  grow (call .elementType)
    (node .arrayType
      (label .rank
        (node .arrayRankSpecifier
          (bracketed "[" "]" (opt (sepBy (opt expression) (sign ",")))))))

def creation : Form :=
  any [
    node .anonymousObjectCreationExpression
      (seq (word "new") (bracketed "\x7b" "\x7d" (commaList anonymousMember))),
    node .implicitArrayCreationExpression
      (all [word "new", sign "[", many (sign ","), sign "]", call .initializer]),
    node .implicitObjectCreationExpression
      (all [word "new", call .argumentList, opt (call .initializer)]),
    node .arrayCreationExpression
      (all [ahead (all [word "new", call .elementType, sign "["]), word "new",
        label .type sizedArray, opt (call .initializer)]),
    node .objectCreationExpression
      (all [word "new", label .type coreType, opt (call .argumentList),
        opt (call .initializer)])]

def stackAllocation : Form :=
  alt
    (node .implicitStackallocExpression
      (all [word "stackalloc", sign "[", sign "]", call .initializer]))
    (node .stackallocExpression
      (all [word "stackalloc", label .type sizedArray, opt (call .initializer)]))

/-! ### Lambdas -/

def lambdaModifiers : Form := many (leafOf .modifier ["static", "async"])

def lambdaBody : Form := seq (sign "=>") (alt block expression)

/-- The parameters of a lambda and its arrow, as far as brackets tell. -/
def listAndArrow : Form := seq (call .group) (sign "=>")

def lambda : Form :=
  node .lambdaExpression
    (any [
      all [lambdaModifiers,
        label .parameters (token .implicitParameter .identifier .free), lambdaBody],
      all [ahead (all [attributeLists, lambdaModifiers,
          alt listAndArrow (seq (call .type) listAndArrow)]),
        attributeLists, lambdaModifiers,
        opt (seq (.unless listAndArrow) (label .type (call .type))),
        label .parameters (call .parameterList), lambdaBody]])

def anonymousMethod : Form :=
  node .anonymousMethodExpression
    (all [lambdaModifiers, word "delegate", opt (label .parameters (call .parameterList)), block])

/-! ### Queries -/

def fromClause : Form :=
  node .fromClause
    (all [word "from",
      alt (all [nameLabel, word "in"]) (all [label .type (call .type), nameLabel, word "in"]),
      expression])

def queryClause : Form :=
  any [fromClause,
    node .letClause (all [word "let", identifier, sign "=", expression]),
    node .whereClause (seq (word "where") expression),
    node .joinClause
      (all [word "join",
        alt (all [identifier, word "in"]) (all [label .type (call .type), identifier, word "in"]),
        expression, word "on", expression, word "equals", expression,
        opt (node .joinIntoClause (seq (word "into") identifier))]),
    node .orderByClause
      (seq (word "orderby")
        (sepBy (seq expression (opt (anyWord ["ascending", "descending"]))) (sign ",")))]

def queryBody : Form :=
  all [many queryClause,
    alt (node .selectClause (seq (word "select") expression))
      (node .groupClause (all [word "group", expression, word "by", expression])),
    opt (all [word "into", identifier, call .queryBody])]

def query : Form :=
  node .queryExpression
    (all [ahead (seq (word "from")
        (alt (seq identifier (word "in")) (all [call .type, identifier, word "in"]))),
      fromClause, call .queryBody])

/-! ### Operands -/

/-- Items in round brackets with a comma between them. -/
def tuple : Form :=
  node .tupleExpression
    (bracketed "(" ")" (all [argument, sign ",", sepBy argument (sign ",")]))

/-- Whether a comma stands in round brackets, outside all inner ones. -/
def hasComma : Form :=
  ahead (all [sign "(",
    many (any [call .group, literal, call .interpolated, identifier,
      seq (.unless (alt (bareSign ",") (bareSign ")"))) (token (.token "") .any .free)]),
    sign ","])

def parenthesized : Form := node .parenthesizedExpression (bracketed "(" ")" expression)

/-- An operand that is not made with an operator. -/
def primary : Form :=
  any [literal, call .interpolated, creation, stackAllocation, anonymousMethod,
    anyWord ["this", "base"],
    node .typeofExpression
      (seq (word "typeof") (bracketed "(" ")" (label .type (call .type)))),
    node .sizeofExpression
      (seq (word "sizeof") (bracketed "(" ")" (label .type (call .type)))),
    node .defaultExpression
      (seq (word "default") (opt (bracketed "(" ")" (label .type (call .type))))),
    node .checkedExpression
      (seq (anyWord ["checked", "unchecked"]) (bracketed "(" ")" expression)),
    node .makerefExpression (seq (word "__makeref") (bracketed "(" ")" expression)),
    node .reftypeExpression (seq (word "__reftype") (bracketed "(" ")" expression)),
    node .refvalueExpression
      (seq (word "__refvalue")
        (bracketed "(" ")"
          (all [label .value expression, sign ",", label .type (call .type)]))),
    seq hasComma tuple, parenthesized, tuple,
    aliasQualified, valueName, predefinedType,
    node .elementBindingExpression (call .bracketedArgumentList),
    call .initializer]

/-- The name of a member, told by the dot before it. -/
def memberName : Form := label .name valueName

/-- What makes a larger operand of the one before it. -/
def postfixSteps : Form :=
  any [
    node .memberAccessExpression (seq (alt (sign ".") (sign "->")) memberName),
    node .conditionalAccessExpression
      (alt
        (seq (bareSign "?")
          (node .memberBindingExpression
            (seq (token (.token ".") (.mark ['.'] "0123456789.".toList) .free) memberName)))
        (seq (token (.token "?") (.mark ['?'] []) .none)
          (node .elementBindingExpression (call .bracketedArgumentList)))),
    node .invocationExpression (call .argumentList),
    node .elementAccessExpression (call .bracketedArgumentList),
    node .postfixUnaryExpression (anySign ["++", "--", "!"])]

def postfix_ : Form := grow primary postfixSteps

/-- A value brought to a type. -/
def cast (operand : Form) : Form :=
  node .castExpression
    (all [sign "(", label .type (call .type), sign ")",
      ahead (seq (.unless (bareSign "[")) (any [operandStart, bareSign "&", bareSign "*"])),
      .unless (any [bareSign "&&", bareSign "&=", bareSign "*=", bareSign "+=", bareSign "-="]),
      label .value operand])

def prefixed (operand : Form) : Form :=
  node .prefixUnaryExpression
    (seq (anySign ["++", "--", "+", "-", "!", "~", "&", "*", "^"]) operand)

/-- An operand with the operators before and behind it. -/
def unary (bare : Bool) : Form :=
  let operand := call (.unary bare)
  any ((if bare then [] else [lambda]) ++ [
    query,
    prefixed operand,
    cast operand,
    node .awaitExpression (all [word "await", ahead operandStart, operand]),
    node .throwExpression (seq (word "throw") (call (.operand bare 1))),
    node .refExpression (seq (word "ref") (call (.operand bare 1))),
    node .rangeExpression (seq (sign "..") (opt (call (.operand bare 17)))),
    postfix_])

/-- The signs of the operators with two operands, by the level at which they
    bind; operators of one level group to the left. -/
def binarySigns : List (Nat × List String) := [
    (13, ["*", "/", "%"]), (12, ["+", "-"]), (11, ["<<", ">>", ">>>"]),
    (10, ["<", ">", "<=", ">="]), (9, ["==", "!="]), (8, ["&"]), (7, ["^"]), (6, ["|"]),
    (5, ["&&"]), (4, ["||"])]

def assignmentSigns : List String :=
  ["=", "+=", "-=", "*=", "/=", "%=", "&=", "|=", "^=", "<<=", ">>=", ">>>=", "??="]

/-- One case of a choice by pattern. -/
def arm : Form :=
  node .switchExpressionArm
    (all [call .pattern, opt (node .whenClause (seq (word "when") (call (.operand true 1)))),
      sign "=>", expression])

/-- What makes a larger operand of the one before it, by the level at which it
    binds. -/
def operatorSteps (bare : Bool) : List (Nat × Form) :=
  let operand (level : Nat) := call (.operand bare level)
  [(16, node .rangeExpression (seq (sign "..") (opt (operand 17)))),
    (15, node .switchExpression
      (all [word "switch", bracketed "\x7b" "\x7d" (commaList arm)])),
    (14, node .withExpression
      (seq (word "with") (bracketed "\x7b" "\x7d"
        (commaList (node .withInitializer (all [identifier, sign "=", expression])))))),
    (10, node .isExpression
      (all [word "is", .unless (word "not"), label .right testedType,
        .unless (any [designator, bareSign "(", bareSign "\x7b", bareSign ".", bareSign "<",
          anyWord ["and", "or"]])])),
    (10, node .isPatternExpression (seq (word "is") (label .pattern (call .pattern)))),
    (10, node .asExpression (seq (word "as") (label .right testedType)))]
  ++ binarySigns.map (fun (level, signs) =>
    (level, node .binaryExpression
      (seq (label .operator (anySign signs)) (label .right (operand (level + 1))))))
  ++ [(3, node .binaryExpression
      (seq (label .operator (sign "??")) (label .right (operand 3)))),
    (2, node .conditionalExpression
      (all [token (.token "?") (.mark ['?'] ['?']) .free, operand 1, sign ":", operand 1])),
    (1, node .assignmentExpression
      (seq (label .operator (anySign assignmentSigns)) (label .right (operand 1))))]

/-- An operand made with operators of `level` and above. -/
def operandOf (bare : Bool) (level : Nat) : Form :=
  grow (call (.unary bare))
    (any (((operatorSteps bare).filter fun step => level ≤ step.1).map Prod.snd))

/-- The operands of each level, written out once. -/
def operands : List Form :=
  (List.range 18).map (operandOf false)

/-- The bare operands of each level. -/
def bareOperands : List Form :=
  (List.range 18).map (operandOf true)

def operand (bare : Bool) (level : Nat) : Form :=
  ((if bare then bareOperands else operands)[level]?).getD (call (.unary bare))

end Grammar

end SharpLint
