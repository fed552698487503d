import SharpLint.Syntax.Grammar.Tokens

/-!
# Names and Types

## Main definitions

* `simpleName`, `name`: names with and without dots.
* `elementType`, `type`: types without and with array ranks.
* `testedType`: a type behind `is` and `as`, where a question mark may begin
  the branches of a condition instead.
-/

namespace SharpLint

namespace Grammar

open Form

/-- A name with or without type arguments. -/
def simpleName : Form :=
  alt (node .genericName (seq identifier (call .typeArguments))) identifier

/-- A name behind `::`, told by its alias. -/
def aliasQualified : Form :=
  node .aliasQualifiedName (all [identifier, sign "::", label .name simpleName])

/-- A name with dots. -/
def name : Form :=
  grow (alt aliasQualified simpleName)
    (node .qualifiedName (seq (sign ".") (label .name simpleName)))

/-- The arguments of a type; none but commas for a type that is left open. -/
def typeArguments : Form :=
  node .typeArgumentList
    (all [bareSign "<",
      alt (sepBy (call .type) (sign ",")) (many (sign ",")),
      bareSign ">"])

def predefinedNames : List String :=
  ["bool", "byte", "char", "decimal", "double", "float", "int", "long", "object", "sbyte",
    "short", "string", "uint", "ulong", "ushort", "nint", "nuint", "void"]

def predefinedType : Form := leafOf .predefinedType predefinedNames

/-- `var` where a name or a list of names follows. -/
def implicitType : Form :=
  seq (token .implicitType (.word "var".toList) .free) (ahead (alt designator (bareSign "(")))

def tupleElement : Form :=
  node .tupleElement (seq (label .type (call .type)) (opt (label .name designator)))

def tupleType : Form :=
  node .tupleType
    (all [sign "(", tupleElement, sign ",", sepBy tupleElement (sign ","), sign ")"])

def functionPointerType : Form :=
  node .functionPointerType
    (all [word "delegate", bareSign "*",
      opt (node .callingConvention
        (alt (word "managed")
          (seq (word "unmanaged")
            (opt (bracketed "[" "]" (sepBy identifier (sign ","))))))),
      bareSign "<",
      sepBy (node .functionPointerParameter
        (seq (opt (anyWord ["ref", "out", "in"])) (label .type (call .type)))) (sign ","),
      bareSign ">"])

def refType : Form :=
  node .refType (all [word "ref", opt (word "readonly"), label .type (call .type)])

/-- A type before a name, whose value may not leave its block. -/
def scopedType : Form :=
  node .scopedType
    (all [word "scoped", ahead (alt (word "ref") (seq (call .type) designator)),
      label .type (call .type)])

/-- A type that no other type is made of. -/
def coreType : Form :=
  seq (.unless (word "await"))
    (any [implicitType, predefinedType, functionPointerType, tupleType, refType, scopedType, name])

/-- The mark of a type that has a null value. -/
def nullableMark : Form := node .nullableType (token (.token "?") (.mark ['?'] ['?', '.']) .free)

def pointerMark : Form := node .pointerType (bareSign "*")

/-- The ranks of an array, without sizes. -/
def rankMark : Form :=
  node .arrayType
    (label .rank (node .arrayRankSpecifier (all [sign "[", many (sign ","), sign "]"])))

/-- A type without array ranks. -/
def elementType : Form := grow coreType (alt nullableMark pointerMark)

/-- Any type. -/
def type : Form := grow coreType (any [nullableMark, pointerMark, rankMark])

/-- A type that is no pointer. -/
def valueType : Form := grow coreType (alt nullableMark rankMark)

/-- What may begin an operand. -/
def operandStart : Form :=
  seq (.unless softWords)
    (any [identifier, token .realLiteral .real .free, token .integerLiteral .integer .free,
      bareSign "(", bareSign "\"", bareSign "@", bareSign "$", bareSign "\x27", bareSign "~",
      token (.token "!") (.mark ['!'] ['=']) .free, sign "-", sign "+", sign "--", sign "++",
      bareSign "[",
      anyWord ["true", "false", "null", "this", "base", "new", "typeof", "sizeof", "default",
        "checked", "unchecked", "delegate", "throw", "stackalloc", "ref", "static"],
      predefinedType])

/-- A type behind `is` and `as`. -/
def testedType : Form :=
  grow coreType
    (alt (seq nullableMark (.unless operandStart)) rankMark)

/-- A type that a pattern begins with. -/
def patternType : Form := grow coreType rankMark

end Grammar

end SharpLint
