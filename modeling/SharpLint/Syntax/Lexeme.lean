import SharpLint.Text.Basic
import SharpLint.Text.Digit
import SharpLint.Text.Word

/-!
# Lexemes

A lexeme class says how many characters at the head of a text make one token.
A class measures only; it never looks behind the text it is given, and it
never measures more than the text holds.

## Main definitions

* `Quoting`: how a string with holes is quoted.
* `Lexeme`: the classes of tokens.
* `Lexeme.length`: the number of characters of the token at the head of a
  text, zero where there is no token of the class.
-/

namespace SharpLint

namespace Lexeme

/-- The number of leading characters that satisfy `p`. -/
def run (p : Char → Bool) : Text → Nat
  | [] => 0
  | c :: cs => if p c then run p cs + 1 else 0

/-- Whether the text begins with a character that satisfies `p`. -/
def headIs (p : Char → Bool) : Text → Bool
  | [] => false
  | c :: _ => p c

/-- Whether the character belongs to a word in plain letters. -/
def isWordChar (c : Char) : Bool :=
  Word.canContinue c || c == '_'

/-- The number of characters that make one part of a word: a character of
    class `p` or the escape of a character. -/
def wordPart (p : Char → Bool) : Text → Nat
  | '\\' :: 'u' :: rest => if run Digit.isHexadecimal (rest.take 4) = 4 then 6 else 0
  | '\\' :: 'U' :: rest => if run Digit.isHexadecimal (rest.take 8) = 8 then 10 else 0
  | c :: _ => if p c then 1 else 0
  | [] => 0

/-- The number of characters of a word that goes on at the head of a text of
    at most `fuel` characters. -/
def wordRest : Nat → Text → Nat
  | 0, _ => 0
  | fuel + 1, text =>
    match wordPart Word.canContinue text with
    | 0 => 0
    | n => n + wordRest fuel (text.drop n)

/-- The number of characters of the word at the head of the text. -/
def wordLength (text : Text) : Nat :=
  match wordPart (fun c => Word.canStart c || c == '_') text with
  | 0 => 0
  | n => n + wordRest text.length (text.drop n)

/-- The words that never name anything. -/
def reserved : List Text := [
    "abstract", "as", "base", "bool", "break", "byte", "case", "catch", "char", "checked",
    "class", "const", "continue", "decimal", "default", "delegate", "do", "double", "else",
    "enum", "event", "explicit", "extern", "false", "finally", "fixed", "float", "for",
    "foreach", "goto", "if", "implicit", "in", "int", "interface", "internal", "is", "lock",
    "long", "namespace", "new", "null", "object", "operator", "out", "override", "params",
    "private", "protected", "public", "readonly", "ref", "return", "sbyte", "sealed", "short",
    "sizeof", "stackalloc", "static", "string", "struct", "switch", "this", "throw", "true",
    "try", "typeof", "uint", "ulong", "unchecked", "unsafe", "ushort", "using", "virtual",
    "void", "volatile", "while"].map String.toList

/-- The number of characters of the identifier at the head of the text. An
    `@` before it lifts the ban on reserved words. -/
def identifierLength : Text → Nat
  | '@' :: rest =>
    match wordLength rest with
    | 0 => 0
    | n => n + 1
  | text =>
    let n := wordLength text
    if reserved.contains (text.take n) then 0 else n

/-- Digits that satisfy `p`, with underscores between and after them. -/
def digits (p : Char → Bool) (text : Text) : Nat :=
  if headIs p text then run (fun c => p c || c == '_') text else 0

/-- The suffix of an integer. -/
def integerSuffix : Text → Nat
  | a :: b :: _ =>
    if isUnsigned a then (if isLong b then 2 else 1)
    else if isLong a then (if isUnsigned b then 2 else 1)
    else 0
  | [a] => if isUnsigned a || isLong a then 1 else 0
  | [] => 0
where
  isUnsigned (c : Char) : Bool := c == 'u' || c == 'U'
  isLong (c : Char) : Bool := c == 'l' || c == 'L'

/-- The number of characters of the integer at the head of the text. -/
def integerLength (text : Text) : Nat :=
  let body :=
    match text with
    | '0' :: x :: rest =>
      if x == 'x' || x == 'X' then withMark (run (fun c => Digit.isHexadecimal c || c == '_') rest) text
      else if x == 'b' || x == 'B' then
        withMark (run (fun c => c == '0' || c == '1' || c == '_') rest) text
      else digits Digit.isDecimal text
    | _ => digits Digit.isDecimal text
  if body = 0 then 0 else body + integerSuffix (text.drop body)
where
  withMark (n : Nat) (text : Text) : Nat := if n = 0 then digits Digit.isDecimal text else n + 2

/-- The exponent of a real number. -/
def exponent : Text → Nat
  | e :: sign :: rest =>
    if e == 'e' || e == 'E' then
      if sign == '+' || sign == '-' then marked 2 (digits Digit.isDecimal rest)
      else marked 1 (digits Digit.isDecimal (sign :: rest))
    else 0
  | _ => 0
where
  marked (mark n : Nat) : Nat := if n = 0 then 0 else n + mark

/-- The suffix of a real number. -/
def realSuffix (text : Text) : Nat :=
  if headIs (fun c => ['f', 'F', 'd', 'D', 'm', 'M'].contains c) text then 1 else 0

/-- The number of characters of the real number at the head of the text. -/
def realLength (text : Text) : Nat :=
  let whole := digits Digit.isDecimal text
  let fraction :=
    match text.drop whole with
    | '.' :: rest => exponent.marked 1 (digits Digit.isDecimal rest)
    | _ => 0
  let body := whole + fraction
  if body = 0 then 0
  else
    let scale := exponent (text.drop body)
    let suffix := realSuffix (text.drop (body + scale))
    if fraction + scale + suffix = 0 then 0 else body + scale + suffix

/-- The number of characters of a literal up to and with its closing `quote`,
    on one line, an escaped character taken whole. -/
def quotedRest (quote : Char) : Text → Option Nat
  | [] => none
  | '\\' :: '\n' :: _ => none
  | '\\' :: _ :: rest => (quotedRest quote rest).map (· + 2)
  | c :: rest =>
    if c == quote then some 1
    else if c == '\n' then none
    else (quotedRest quote rest).map (· + 1)

/-- The number of characters up to and with a closing quote, a doubled quote
    standing for one. -/
def verbatimRest : Text → Option Nat
  | [] => none
  | '"' :: '"' :: rest => (verbatimRest rest).map (· + 2)
  | c :: rest => if c == '"' then some 1 else (verbatimRest rest).map (· + 1)

/-- The number of characters up to and with the first run of `n` quotes. -/
def rawRest (n : Nat) : Text → Option Nat
  | [] => none
  | c :: rest =>
    if (c :: rest).take n == List.replicate n '"' then some n
    else (rawRest n rest).map (· + 1)

/-- The mark of a string of bytes. -/
def bytesSuffix (text : Text) : Nat :=
  if text.take 2 == ['u', '8'] || text.take 2 == ['U', '8'] then 2 else 0

/-- `mark` characters and the measured rest of a string, with its suffix. -/
def closed (mark : Nat) (rest : Option Nat) (text : Text) : Nat :=
  match rest with
  | none => 0
  | some n => mark + n + bytesSuffix (text.drop (mark + n))

/-- The number of characters of the character literal at the head. -/
def characterLength : Text → Nat
  | '\x27' :: '\x27' :: _ => 0
  | '\x27' :: '\\' :: _ :: rest => ((quotedRest '\x27' rest).map (· + 3)).getD 0
  | '\x27' :: c :: '\x27' :: _ => if c == '\n' then 0 else 3
  | _ => 0

/-- The number of characters of the plain string literal at the head. -/
def stringLength : Text → Nat
  | '"' :: rest => closed 1 (quotedRest '"' rest) ('"' :: rest)
  | _ => 0

/-- The number of characters of the verbatim string literal at the head. -/
def verbatimLength : Text → Nat
  | '@' :: '"' :: rest => closed 2 (verbatimRest rest) ('@' :: '"' :: rest)
  | _ => 0

/-- The number of characters of the raw string literal at the head. -/
def rawLength (text : Text) : Nat :=
  let n := run (· == '"') text
  if n < 3 then 0 else closed n (rawRest n (text.drop n)) text

end Lexeme

/-- How a string with holes is quoted. -/
inductive Quoting
  /-- On one line, with backslash escapes. -/
  | plain
  /-- Over many lines, a quote written twice. -/
  | verbatim
  /-- Between `quotes` quotes; `dollars` braces open a hole. -/
  | raw (dollars quotes : Nat)
  deriving DecidableEq, Repr

namespace Quoting

/-- Text between the holes of a plain string; doubled braces stand for one. -/
def plainFilling : Text → Nat
  | '{' :: '{' :: rest => plainFilling rest + 2
  | '}' :: '}' :: rest => plainFilling rest + 2
  | '\\' :: c :: rest => if c == '\n' then 0 else plainFilling rest + 2
  | c :: rest =>
    if c == '"' || c == '{' || c == '}' || c == '\n' then 0 else plainFilling rest + 1
  | [] => 0

/-- Text between the holes of a verbatim string. -/
def verbatimFilling : Text → Nat
  | '{' :: '{' :: rest => verbatimFilling rest + 2
  | '}' :: '}' :: rest => verbatimFilling rest + 2
  | '"' :: '"' :: rest => verbatimFilling rest + 2
  | c :: rest => if c == '"' || c == '{' || c == '}' then 0 else verbatimFilling rest + 1
  | [] => 0

/-- Text between the holes of a raw string. -/
def rawFilling (dollars quotes : Nat) : Text → Nat
  | [] => 0
  | c :: rest =>
    if (c :: rest).take quotes == List.replicate quotes '"' then 0
    else if Lexeme.run (· == '{') (c :: rest) = dollars then 0
    else rawFilling dollars quotes rest + 1

/-- The number of characters of the text between two holes. -/
def filling : Quoting → Text → Nat
  | .plain => plainFilling
  | .verbatim => verbatimFilling
  | .raw dollars quotes => rawFilling dollars quotes

end Quoting

/-- The classes of tokens. -/
inductive Lexeme
  /-- Exactly `text`, unless a character of `unlike` follows. -/
  | mark (text unlike : Text)
  /-- Exactly the word `text`. -/
  | word (text : Text)
  | identifier
  | integer
  | real
  | character
  | string
  | verbatim
  | raw
  /-- Text between two holes of a string. -/
  | filling (quoting : Quoting)
  /-- How the value of a hole is to be written. -/
  | format
  /-- The word of a directive, with the hash before it. -/
  | directive (text : Text)
  /-- One character of any kind. -/
  | any
  deriving DecidableEq, Repr

namespace Lexeme

/-- The number of characters of `letters` at the head of the text, where they
    make a whole word. -/
def wordIs (letters : Text) (text : Text) : Nat :=
  if letters.isPrefixOf text && !headIs isWordChar (text.drop (List.length letters)) then
    List.length letters
  else 0

/-- The number of characters of the directive at the head of the text. -/
def directiveLength (letters : Text) : Text → Nat
  | '#' :: rest =>
    let blanks := run (fun c => c == ' ' || c == '\t') rest
    match wordIs letters (rest.drop blanks) with
    | 0 => 0
    | n => 1 + blanks + n
  | _ => 0

/-- The number of characters of the token at the head of the text; zero where
    there is none of the class. -/
def length (lexeme : Lexeme) (text : Text) : Nat :=
  match lexeme with
  | .mark sign unlike =>
    if sign.isPrefixOf text && !headIs unlike.contains (text.drop (List.length sign)) then
      List.length sign
    else 0
  | .word letters => wordIs letters text
  | .identifier => identifierLength text
  | .integer => integerLength text
  | .real => realLength text
  | .character => characterLength text
  | .string => stringLength text
  | .verbatim => verbatimLength text
  | .raw => rawLength text
  | .filling quoting => quoting.filling text
  | .format => run (fun c => c != '}' && c != '"') text
  | .directive letters => directiveLength letters text
  | .any => min 1 (List.length text)

end Lexeme

end SharpLint
