import SharpLint.Text.Blank
import SharpLint.Text.Lines

/-!
# Tidying Edited Lines

After an edit the lines it touched may end in padding, and a line whose
content was removed may stand empty below another empty line or below an
opening brace. Tidying repairs the touched lines and leaves every other line
as it is, byte for byte.

## Main definitions

* `TidyLine`: a line, with its carriage return set apart.
* `tidyLines`: the kept lines, given what was kept before them.
* `tidy`: the text with its touched lines tidied.
-/

namespace SharpLint

/-- One line of a text that is being tidied. -/
structure TidyLine where
  /-- Whether an edit touched the line. -/
  touched : Bool
  /-- The line without its terminator. -/
  body : Text
  /-- Whether a carriage return stands before the line feed. -/
  hasReturn : Bool
  deriving DecidableEq, Repr

namespace TidyLine

/-- The line `raw`, its carriage return split off. -/
def ofRaw (touched : Bool) (raw : Text) : TidyLine :=
  if raw.getLast? = some '\r' then ⟨touched, raw.dropLast, true⟩ else ⟨touched, raw, false⟩

/-- The body as it is written back: a touched line loses its padding. -/
def cleaned (line : TidyLine) : Text :=
  if line.touched then Text.dropPaddingEnd line.body else line.body

/-- The line as it is written back, its line feed left out. -/
def written (line : TidyLine) : Text :=
  if line.hasReturn then line.cleaned ++ ['\r'] else line.cleaned

/-- Whether a blank line below this one is superfluous: this one is blank or
    opens a block. -/
def shadowsBlank (line : TidyLine) : Bool :=
  Text.isBlank line.cleaned || Text.endsWithChar (Text.trimEnd line.cleaned) '{'

end TidyLine

/-- The lines that are kept, as they are written. `shadowed` tells whether the
    last line kept so far makes a blank line superfluous. The last line of a
    text is always kept, for it has no terminator to take along. -/
def tidyLines (shadowed : Bool) : List TidyLine → List Text
  | [] => []
  | line :: lines =>
    if line.touched && Text.isBlank line.cleaned && shadowed && !lines.isEmpty then
      tidyLines shadowed lines
    else line.written :: tidyLines line.shadowsBlank lines

/-- Whether one of the spans meets line `n`. A span whose stop is on an
    earlier line than its start meets none. -/
def touchesLine (table : LineTable) (touched : List Span) (n : Nat) : Bool :=
  touched.any fun span => table.line span.start ≤ n && n ≤ table.line span.stop

/-- The text with the lines that `touched` meets tidied: padding at their ends
    goes, and a blank one goes when it follows a blank line or a line that
    opens a block. -/
def tidy (text : Text) (touched : List Span) : Text :=
  let table := LineTable.ofText text
  Text.joinLines <| tidyLines false <|
    (Text.splitLines text).mapIdx fun n raw => .ofRaw (touchesLine table touched n) raw

end SharpLint
