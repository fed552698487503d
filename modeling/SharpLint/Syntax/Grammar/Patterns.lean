import SharpLint.Syntax.Grammar.Expressions

/-!
# Patterns

## Main definitions

* `pattern`: patterns with `and`, `or` and `not`.
* `plainPattern`: patterns without them.
* `designations`: the names that a pattern gives to parts of a value.
-/

namespace SharpLint

namespace Grammar

open Form

/-- `_` where it matches anything. -/
def discard : Form :=
  seq (token .discard (.word ['_']) .free) (.unless (alt (bareSign ".") (bareSign "(")))

/-- What a pattern calls the whole value. -/
def designation : Form :=
  any [discard, label .name designator, call .designations]

/-- Names in round brackets. -/
def designations : Form :=
  node .parenthesizedVariableDesignation
    (bracketed "(" ")" (opt (sepBy designation (sign ","))))

/-- The path of members before the colon of a subpattern. -/
def subpatternPath : Form :=
  seq (ahead (all [sepBy identifier (sign "."), sign ":"]))
    (seq (grow identifier (node .memberAccessExpression (seq (sign ".") nameLabel))) (sign ":"))

def subpattern : Form :=
  node .subpattern (seq (opt subpatternPath) (call .pattern))

def positionalClause : Form :=
  node .positionalPatternClause
    (bracketed "(" ")" (opt (sepBy subpattern (sign ","))))

def propertyClause : Form :=
  node .propertyPatternClause (bracketed "\x7b" "\x7d" (commaList subpattern))

/-- Whether what follows is more than one pattern in round brackets. -/
def severalPatterns : Form :=
  ahead (alt hasComma (all [call .group, any [bareSign "\x7b", designator]]))

def recursivePattern : Form :=
  node .recursivePattern
    (alt
      (all [label .type patternType, alt (seq positionalClause (opt propertyClause)) propertyClause,
        opt designation])
      (all [alt (all [severalPatterns, positionalClause, opt propertyClause]) propertyClause,
        opt designation]))

/-- A value that a pattern compares with. -/
def constant : Form := call (.operand true 11)

def listPattern : Form :=
  node .listPattern
    (seq
      (bracketed "[" "]"
        (commaList (alt (seq (sign "..") (opt (call .pattern))) (call .pattern))))
      (opt designation))

/-- A pattern without `and`, `or` and `not`. -/
def plainPattern : Form :=
  any [
    node .negatedPattern (seq (word "not") (call .plainPattern)),
    node .relationalPattern (seq (anySign ["<=", ">=", "<", ">"]) constant),
    seq discard (.unless identifier),
    node .declarationPattern
      (all [label .type (token .implicitType (.word "var".toList) .free),
        alt discard (label .name designator)]),
    node .varPattern (seq (word "var") (call .designations)),
    node .constantPattern (seq (ahead (all [word "nameof", sign "("])) constant),
    recursivePattern,
    listPattern,
    node .parenthesizedPattern (bracketed "(" ")" (call .pattern)),
    node .declarationPattern
      (seq (label .type patternType) (alt discard (label .name designator))),
    node .typePattern
      (seq (label .type (seq (ahead predefinedType) patternType)) (.unless (bareSign "."))),
    node .constantPattern constant]

/-- Any pattern. -/
def pattern : Form :=
  grow (grow (call .plainPattern) (node .andPattern (seq (word "and") (call .plainPattern))))
    (node .orPattern
      (seq (word "or")
        (grow (call .plainPattern) (node .andPattern (seq (word "and") (call .plainPattern))))))

end Grammar

end SharpLint
