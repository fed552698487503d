import SharpLint.Syntax.Grammar.Patterns

/-!
# Statements

## Main definitions

* `block`: statements in braces.
* `statement`: any statement.
* `variableDeclaration`: a type and the variables declared with it.
* `functionBody`: the body of a function, or the mark that it has none.
-/

namespace SharpLint

namespace Grammar

open Form

def statement : Form := call .statement

/-- An expression in round brackets. -/
def inBrackets : Form := bracketed "(" ")" expression

def endMark : Form := sign ";"

/-! ### Declarations -/

/-- Names in round brackets, each the name of a new variable. -/
def tuplePattern : Form :=
  node .tuplePattern
    (bracketed "(" ")"
      (sepBy (any [call .tuplePattern, label .name discard, nameLabel]) (sign ",")))

def variableDeclarator : Form :=
  node .variableDeclarator
    (all [alt nameLabel (call .tuplePattern), opt (call .bracketedArgumentList),
      opt (seq (sign "=") expression)])

def variableDeclaration : Form :=
  node .variableDeclaration
    (seq (label .type (call .type)) (sepBy variableDeclarator (sign ",")))

/-- What the first variable of a declaration is followed by. -/
def startsDeclaration : Form :=
  ahead (seq (call .type)
    (alt
      (seq designator (any [sign "=", bareSign ";", bareSign ",", bareSign "["]))
      (seq (call .tuplePattern) (sign "="))))

def localDeclaration : Form :=
  node .localDeclarationStatement
    (all [opt (seq (word "await") (ahead (word "using"))), opt (word "using"), modifiers,
      startsDeclaration, call .variableDeclaration, endMark])

/-- A parameter list is told by the member it belongs to. -/
def parametersLabel : Form := label .parameters (call .parameterList)

def typeParameter : Form :=
  node .typeParameter (all [attributeLists, opt (anyWord ["in", "out"]), nameLabel])

def typeParameterList : Form :=
  node .typeParameterList (all [bareSign "<", sepBy typeParameter (sign ","), bareSign ">"])

def typeParameterConstraint : Form :=
  node .typeParameterConstraint
    (any [seq (word "class") (opt (bareSign "?")), word "struct",
      seq (anyWord ["notnull", "unmanaged", "default"]) (.unless (bareSign ".")),
      node .constructorConstraint (all [word "new", sign "(", sign ")"]),
      all [word "allows", word "ref", word "struct"],
      label .type (call .type)])

def typeParameterConstraints : Form :=
  many (node .typeParameterConstraintsClause
    (all [word "where", identifier, sign ":", sepBy typeParameterConstraint (sign ",")]))

def localFunction : Form :=
  node .localFunctionStatement
    (all [
      ahead (all [prelude, call .type, designator, opt typeParameterList, call .group,
        any [bareSign "\x7b", sign "=>", bareSign ";", word "where"]]),
      prelude, label .type (call .type), nameLabel, opt typeParameterList, parametersLabel,
      typeParameterConstraints, call .functionBody])

/-! ### Control -/

def forStatement : Form :=
  node .forStatement
    (all [word "for", sign "(",
      opt (alt (seq startsDeclaration (call .variableDeclaration))
        (sepBy expression (sign ","))), endMark,
      opt expression, endMark,
      opt (sepBy expression (sign ",")), sign ")",
      statement])

def foreachStatement : Form :=
  node .foreachStatement
    (all [opt (word "await"), word "foreach", sign "(",
      alt
        (all [label .type (call .type), label .left (alt (call .tuplePattern) designator), word "in"])
        (seq (label .left expression) (word "in")),
      label .right expression, sign ")", statement])

def usingStatement : Form :=
  node .usingStatement
    (all [opt (word "await"), word "using", sign "(",
      alt (seq startsDeclaration (call .variableDeclaration)) expression, sign ")", statement])

def catchClause : Form :=
  node .catchClause
    (all [word "catch",
      opt (node .catchDeclaration
        (bracketed "(" ")" (seq (label .type (call .type)) (opt (label .name designator))))),
      opt (node .catchFilterClause (seq (word "when") inBrackets)),
      block])

def tryStatement : Form :=
  node .tryStatement
    (all [word "try", block, many catchClause,
      opt (node .finallyClause (seq (word "finally") block))])

def switchSection : Form :=
  node .switchSection
    (all [
      alt
        (all [word "case", call .pattern, opt (node .whenClause (seq (word "when") expression))])
        (word "default"),
      sign ":",
      many (call (.part .statements))])

def switchStatement : Form :=
  node .switchStatement
    (all [word "switch", alt (seq inBrackets (ahead (bareSign "\x7b"))) tuple,
      node .switchBody (bracketed "\x7b" "\x7d" (many switchSection))])

/-- A statement that begins with a word of its own. -/
def wordStatement : Form :=
  any [
    node .ifStatement
      (all [word "if", inBrackets, statement, opt (seq (word "else") statement)]),
    node .returnStatement (all [word "return", opt expression, endMark]),
    forStatement, foreachStatement, usingStatement, tryStatement, switchStatement,
    node .whileStatement (all [word "while", inBrackets, statement]),
    node .doStatement (all [word "do", statement, word "while", inBrackets, endMark]),
    node .throwStatement (all [word "throw", opt expression, endMark]),
    node .breakStatement (seq (word "break") endMark),
    node .continueStatement (seq (word "continue") endMark),
    node .lockStatement (all [word "lock", inBrackets, statement]),
    node .fixedStatement
      (all [word "fixed", bracketed "(" ")" (call .variableDeclaration), statement]),
    node .checkedStatement (seq (anyWord ["checked", "unchecked"]) block),
    node .unsafeStatement (seq (word "unsafe") block),
    node .gotoStatement
      (all [word "goto", any [seq (word "case") expression, word "default", identifier], endMark]),
    node .yieldStatement
      (all [word "yield", alt (seq (word "return") expression) (word "break"), endMark])]

/-- Any statement. -/
def anyStatement : Form :=
  any [block, node .emptyStatement endMark, wordStatement, localFunction, localDeclaration,
    node .labeledStatement (all [identifier, sign ":", statement]),
    node .expressionStatement (seq expression endMark)]

/-- Statements in braces. -/
def statements : Form :=
  node .block (bracketed "\x7b" "\x7d" (many (call (.part .statements))))

/-! ### Functions -/

/-- An expression behind an arrow. -/
def arrow : Form := node .arrowExpressionClause (seq (sign "=>") expression)

/-- The body of a function. -/
def functionBody : Form :=
  any [block, seq arrow endMark, endMark]

/-- Anything in which braces are balanced. Names stay names there. -/
def debris : Form :=
  many (any [literal, call .interpolated, identifier,
    bracketed "\x7b" "\x7d" (call .debris),
    seq (.unless (alt (bareSign "\x7b") (bareSign "\x7d"))) (token (.token "") .any .free)])

/-- The body of a function, read as an error where it fits no form. -/
def tolerantBody : Form :=
  any [functionBody,
    node .block (bracketed "\x7b" "\x7d" (node .error (call .debris)))]

end Grammar

end SharpLint
