import SharpLint.Text.Basic
import SharpLint.Text.Order

/-!
# Edits

An edit puts a new text in the place of a span of an old one. Edits of one
batch all speak about the same old text, so they may be applied together
exactly when no two of them overlap. Touching is allowed, and an insertion is
an edit of an empty span.

## Main definitions

* `Edit`: a span and the text that replaces it.
* `Edit.inOrder`: edits sorted by where they start, then by where they stop.
* `Edit.overlapping`: whether some edit starts before its predecessor stops.
* `Edit.splice?`: the text after all edits, and where the new texts stand.
-/

namespace SharpLint

/-- Replace the text in `span` by `text`. -/
structure Edit where
  span : Span
  text : Text
  deriving DecidableEq, Repr, Inhabited

namespace Edit

/-- Edits come in the order of their starts, then of their stops. -/
def precedes (a b : Edit) : Bool :=
  a.span.start < b.span.start || (a.span.start == b.span.start && a.span.stop ≤ b.span.stop)

/-- The edits sorted; edits of one span keep their order. -/
def inOrder (edits : List Edit) : List Edit :=
  sortBy precedes edits

/-- Whether, among sorted edits, one starts before the edit before it stops. -/
def overlapping : List Edit → Bool
  | a :: b :: rest => b.span.start < a.span.stop || overlapping (b :: rest)
  | _ => false

/-- Applies sorted edits to `rest`, the old text from byte `cursor` on. `out`
    is the number of bytes already written. The answer is the rest of the new
    text and the spans of the new texts in it; there is none when an edit
    reaches back over the cursor, past the end, or into a character. -/
def spliceFrom (cursor out : Nat) (rest : Text) : List Edit → Option (Text × List Span)
  | [] => some (rest, [])
  | edit :: edits =>
    if cursor ≤ edit.span.start ∧ edit.span.start ≤ edit.span.stop then
      match Text.splitAt? (edit.span.start - cursor) rest with
      | none => none
      | some (kept, old) =>
        match Text.splitAt? (edit.span.stop - edit.span.start) old with
        | none => none
        | some (_, rest) =>
          let start := out + kept.size
          let stop := start + edit.text.size
          (spliceFrom edit.span.stop stop rest edits).map fun spliced =>
            (kept ++ edit.text ++ spliced.1, ⟨start, stop⟩ :: spliced.2)
    else none

/-- The text after all edits, with the spans where the new texts stand in it. -/
def splice? (text : Text) (edits : List Edit) : Option (Text × List Span) :=
  spliceFrom 0 0 text (inOrder edits)

end Edit

end SharpLint
