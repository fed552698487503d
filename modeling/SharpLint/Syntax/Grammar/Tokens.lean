import SharpLint.Syntax.Form

/-!
# Tokens of the Language

The tokens that the forms of the language are made of. A sign is read as long
as possible, so `=` does not fit where `==` or `=>` stands; a word is read
whole. Some words are words of the language only in certain places and may be
names elsewhere.

## Main definitions

* `sign`, `word`: a sign and a word of the language.
* `identifier`: any name.
* `designator`: a name that is no word of the language where it stands.
* `modifiers`: the modifiers of a declaration.
-/

namespace SharpLint

namespace Grammar

open Form

/-- The signs of more than one character. -/
def longSigns : List Text := [
    "=>", "==", "<=", "<<", "<<=", ">=", ">>", ">>=", ">>>", ">>>=", "++", "+=", "--", "-=",
    "->", "*=", "/=", "%=", "&&", "&=", "||", "|=", "^=", "!=", "??", "??=", "::", ".."].map
    String.toList

/-- The characters that would make a longer sign of `text`. -/
def continuations (text : Text) : Text :=
  longSigns.filterMap fun longer =>
    if text.isPrefixOf longer then longer[text.length]? else none

/-- A sign, read as long as possible. -/
def sign (text : String) : Form :=
  token (.token text) (.mark text.toList (continuations text.toList)) .free

/-- A sign, whatever follows it. -/
def bareSign (text : String) : Form :=
  token (.token text) (.mark text.toList []) .free

/-- A word of the language. -/
def word (text : String) : Form :=
  token (.token text) (.word text.toList) .free

/-- One of the signs. -/
def anySign (texts : List String) : Form :=
  any (texts.map sign)

/-- One of the words. -/
def anyWord (texts : List String) : Form :=
  any (texts.map word)

/-- A leaf of the given kind that is one of the words. -/
def leafOf (kind : Kind) (texts : List String) : Form :=
  any (texts.map fun text => token kind (.word text.toList) .free)

def identifier : Form := token .identifier .identifier .free

/-- The name that the parent is told by. -/
def nameLabel : Form := label .name identifier

/-- The words that end an expression, a type or a pattern where they may stand
    behind one. -/
def softWords : Form :=
  anyWord ["and", "or", "when", "with", "select", "where", "orderby", "group", "join", "let",
    "into", "on", "equals", "by", "ascending", "descending"]

/-- A name that is none of the soft words. -/
def designator : Form :=
  seq (.unless softWords) identifier

/-- What follows a name that would otherwise be a modifier. -/
def endOfName : Form :=
  any [bareSign "(", bareSign "\x7b", bareSign "=", bareSign ";", bareSign ",", bareSign ".",
    bareSign "<", bareSign ")", bareSign ":", bareSign "?", bareSign "["]

/-- One modifier of a declaration. -/
def modifier : Form :=
  alt
    (leafOf .modifier ["public", "private", "protected", "internal", "static", "readonly",
      "abstract", "const", "extern", "fixed", "new", "override", "sealed", "unsafe", "virtual",
      "volatile"])
    (seq (leafOf .modifier ["async", "file", "partial", "required"]) (.unless endOfName))

def modifiers : Form := many modifier

def attributeLists : Form := many (call .attributeList)

/-- The attributes and modifiers before a declaration. -/
def prelude : Form := seq attributeLists modifiers

/-- A semicolon that stands right behind a closing brace belongs to it. -/
def closingSemicolon : Form := opt (seq glued (sign ";"))

/-- A list in the given brackets. -/
def bracketed (start close : String) (form : Form) : Form :=
  all [sign start, form, sign close]

/-- Items separated by commas, with a comma behind the last allowed. -/
def commaList (item : Form) : Form :=
  seq (opt (sepBy item (sign ","))) (opt (sign ","))

end Grammar

end SharpLint
