import SharpLint.Text.Basic

/-!
# Blank Characters

The characters with the Unicode property `White_Space`, and the ways of
trimming them. Two classes are kept apart: *blank* is all of `White_Space`;
*padding* is only the space and the tab, which never end a line.

## Main definitions

* `Text.isBlankChar`, `Text.isPadding`: the two classes.
* `Text.trimStart`, `Text.trimEnd`, `Text.trim`: trimming of blanks.
* `Text.dropPaddingEnd`: trimming of padding at the end.
* `Text.isBlank`: a text of blanks only.
-/

namespace SharpLint

namespace Text

/-- The Unicode property `White_Space`. -/
def isBlankChar (c : Char) : Bool :=
  let n := c.toNat
  (9 ≤ n && n ≤ 13) || n == 0x20 || n == 0x85 || n == 0xA0 || n == 0x1680
    || (0x2000 ≤ n && n ≤ 0x200A) || n == 0x2028 || n == 0x2029 || n == 0x202F
    || n == 0x205F || n == 0x3000

/-- A space or a tab. -/
def isPadding (c : Char) : Bool :=
  c == ' ' || c == '\t'

/-- Every character of core's whitespace class is blank. -/
theorem isBlankChar_of_isWhitespace {c : Char} (h : c.isWhitespace = true) :
    isBlankChar c = true := by
  simp only [Char.isWhitespace, Bool.or_eq_true, decide_eq_true_eq] at h
  rcases h with ((h | h) | h) | h <;> subst h <;> decide

/-- Whether the text holds blanks only. -/
def isBlank (text : Text) : Bool :=
  text.all isBlankChar

/-- Drops the longest end of the text whose characters all satisfy `p`. -/
def dropEndWhile (p : Char → Bool) (text : Text) : Text :=
  (text.reverse.dropWhile p).reverse

/-- The text without the blanks it begins with. -/
def trimStart (text : Text) : Text :=
  text.dropWhile isBlankChar

/-- The text without the blanks it ends with. -/
def trimEnd (text : Text) : Text :=
  dropEndWhile isBlankChar text

/-- The text without the blanks at both ends. -/
def trim (text : Text) : Text :=
  trimEnd (trimStart text)

/-- The text without the spaces and tabs it ends with. -/
def dropPaddingEnd (text : Text) : Text :=
  dropEndWhile isPadding text

/-- Whether the last character of the text is `c`. -/
def endsWithChar (text : Text) (c : Char) : Bool :=
  text.getLast? == some c

end Text

end SharpLint
