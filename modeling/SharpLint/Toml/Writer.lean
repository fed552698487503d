import SharpLint.Text.Basic
import SharpLint.Text.Digit

/-!
# Writing Configuration Files

A string is written in the plainest way that holds it: between apostrophes
when that spares escapes, over many lines when it has line feeds, and with
escapes otherwise. A list of two or more items has each item on a line.

## Main definitions

* `Toml.quote`: a string as it is written.
* `Toml.writeList`: a list of strings as it is written.
-/

namespace SharpLint

namespace Toml

/-- Whether the character can only be written as an escape. -/
def isControl (c : Char) : Bool :=
  c.toNat ≤ 0x1F || c.toNat == 0x7F

/-- Whether the character needs no escape between apostrophes. -/
def isLiteralChar (c : Char) : Bool :=
  c == '\t' || c == '\n' || !isControl c

/-- The longest run of apostrophes in a text, given the run that it follows. -/
def longestRun (run : Nat) : Text → Nat
  | [] => run
  | c :: cs => if c == '\x27' then longestRun (run + 1) cs else max run (longestRun 0 cs)

/-- Whether a text is written between apostrophes: a quote or a backslash in
    it would need an escape otherwise, and nothing in it needs one still. -/
def prefersLiteral (text : Text) : Bool :=
  (text.contains '"' || text.contains '\\')
    && text.all isLiteralChar
    && longestRun 0 text < 3
    && text.getLast? != some '\x27'

/-- The character as it is written between quotes, over many lines or on
    one. -/
def escape (multiline : Bool) (c : Char) : Text :=
  if c == '\x08' then ['\\', 'b']
  else if c == '\t' then ['\\', 't']
  else if c == '\n' then if multiline then ['\n'] else ['\\', 'n']
  else if c == '\x0c' then ['\\', 'f']
  else if c == '\r' then ['\\', 'r']
  else if c == '"' then ['\\', '"']
  else if c == '\\' then ['\\', '\\']
  else if isControl c then
    ['\\', 'u', '0', '0', Digit.upper (c.toNat / 16), Digit.upper (c.toNat % 16)]
  else [c]

/-- A string as it is written. -/
def quote (text : Text) : Text :=
  let multiline := text.contains '\n'
  let marks (n : Nat) (c : Char) : Text := List.replicate n c
  if prefersLiteral text then
    if multiline then marks 3 '\x27' ++ '\n' :: text ++ marks 3 '\x27'
    else if text.contains '\x27' then marks 3 '\x27' ++ text ++ marks 3 '\x27'
    else marks 1 '\x27' ++ text ++ marks 1 '\x27'
  else
    let body := text.flatMap (escape multiline)
    if multiline then marks 3 '"' ++ '\n' :: body ++ marks 3 '"'
    else marks 1 '"' ++ body ++ marks 1 '"'

/-- A list of strings as it is written. -/
def writeList : List Text → Text
  | [] => ['[', ']']
  | [text] => '[' :: quote text ++ [']']
  | texts => '[' :: '\n' :: (texts.flatMap fun text => "    ".toList ++ quote text ++ [',', '\n'])
    ++ [']']

end Toml

end SharpLint
