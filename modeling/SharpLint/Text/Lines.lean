import SharpLint.Text.Basic

/-!
# Lines and Columns

A line feed ends a line; a carriage return before it belongs to the line's
terminator. Lines are numbered from zero. Columns are counted in two units:
characters, for reports, and UTF-16 code units, for editors.

## Main definitions

* `LineTable`: the byte offsets at which the lines of a text start.
* `LineTable.line`: the line that holds a byte offset.
* `LineTable.start`, `LineTable.range`: where a line lies.
* `Text.column?`, `Text.position?`: one-based report positions.
* `Text.editorPosition?`: zero-based editor positions.
* `Text.splitLines`, `Text.joinLines`: a text as the list of its lines.

## Theorems

* `Text.joinLines_splitLines`: the lines of a text, joined, are the text.
-/

namespace SharpLint

namespace Text

/-- The offsets just after each line feed of a text that starts at `offset`. -/
def lineBreaks (offset : Nat) : Text → List Nat
  | [] => []
  | c :: cs =>
    let next := offset + c.utf8Size
    if c = '\n' then next :: lineBreaks next cs else lineBreaks next cs

/-- The lines of a text, split at every line feed. There is at least one. -/
def splitLines : Text → List Text
  | [] => [[]]
  | c :: cs =>
    if c = '\n' then [] :: splitLines cs
    else
      match splitLines cs with
      | [] => [[c]]
      | line :: lines => (c :: line) :: lines

/-- The text with the given lines. -/
def joinLines : List Text → Text
  | [] => []
  | [line] => line
  | line :: lines => line ++ '\n' :: joinLines lines

theorem splitLines_ne_nil (text : Text) : splitLines text ≠ [] := by
  cases text with
  | nil => simp [splitLines]
  | cons c cs =>
    simp only [splitLines]
    split
    · simp
    · split <;> simp

theorem joinLines_cons {line : Text} {lines : List Text} (h : lines ≠ []) :
    joinLines (line :: lines) = line ++ '\n' :: joinLines lines := by
  cases lines with
  | nil => exact absurd rfl h
  | cons _ _ => rfl

@[simp] theorem joinLines_splitLines (text : Text) : joinLines (splitLines text) = text := by
  induction text with
  | nil => rfl
  | cons c cs ih =>
    have hne := splitLines_ne_nil cs
    simp only [splitLines]
    split
    · next hc => rw [joinLines_cons hne, ih, hc]; rfl
    · split
      · next h => exact absurd h hne
      · next line lines h =>
        rw [h] at ih
        cases lines with
        | nil => simpa [joinLines] using ih
        | cons l ls =>
          rw [joinLines_cons (by simp)] at ih ⊢
          simp [ih]

/-- Number of UTF-16 code units of the text. -/
def units16 : Text → Nat
  | [] => 0
  | c :: cs => (if c.toNat < 0x10000 then 1 else 2) + units16 cs

end Text

/-- The byte offsets at which the lines of a text start, in order; the first
    is zero. -/
structure LineTable where
  starts : List Nat
  /-- The number of bytes of the text. -/
  size : Nat
  deriving Repr, Inhabited

namespace LineTable

/-- The line table of a text. -/
def ofText (text : Text) : LineTable :=
  ⟨0 :: Text.lineBreaks 0 text, text.size⟩

/-- The line that holds byte `offset`: the last one that starts at or before
    it. -/
def line (table : LineTable) (offset : Nat) : Nat :=
  (table.starts.takeWhile (· ≤ offset)).length - 1

/-- The offset at which line `n` starts; the end of the text when there is no
    such line. -/
def start (table : LineTable) (n : Nat) : Nat :=
  table.starts[n]?.getD table.size

/-- The offset at which line `n` ends, its line feed left out. -/
def stop (table : LineTable) (n : Nat) : Nat :=
  match table.starts[n + 1]? with
  | some next => next - 1
  | none => table.size

end LineTable

namespace Text

/-- The range of line `n` of the text without its terminator, which is a line
    feed and the carriage return before it. -/
def lineRange (text : Text) (table : LineTable) (n : Nat) : Span :=
  let start := table.start n
  let stop := table.stop n
  if start < stop && (slice text ⟨start, stop⟩).getLast? == some '\r' then ⟨start, stop - 1⟩
  else ⟨start, stop⟩

/-- Line `n` of the text without its terminator. -/
def lineText (text : Text) (table : LineTable) (n : Nat) : Text :=
  slice text (lineRange text table n)

/-- The characters between the start of its line and byte `offset`; `none`
    inside a character and past the end. -/
def beforeOnLine? (text : Text) (table : LineTable) (offset : Nat) : Option Text :=
  slice? text ⟨table.start (table.line offset), offset⟩

/-- The number of characters before `offset` on its line. -/
def column? (text : Text) (table : LineTable) (offset : Nat) : Option Nat :=
  (beforeOnLine? text table offset).map List.length

/-- The line and column of `offset` in reports, both counted from one. -/
def position? (text : Text) (table : LineTable) (offset : Nat) : Option (Nat × Nat) :=
  (column? text table offset).map fun column => (table.line offset + 1, column + 1)

/-- The line and column of `offset` in editors, both counted from zero, the
    column in UTF-16 code units. -/
def editorPosition? (text : Text) (table : LineTable) (offset : Nat) : Option (Nat × Nat) :=
  (beforeOnLine? text table offset).map fun before => (table.line offset, units16 before)

end Text

end SharpLint
