import SharpLint.Edit.Fix

/-!
# Batches of Fixes

One pass over a text applies as many fixes together as go together. Fixes are
taken greedily in report order: a fix joins the batch when none of its edits
overlaps an edit of the batch or another of its own. A fix that does not join
is left to a later pass over the new text.

## Main definitions

* `Batch`: the edits taken so far and the number of fixes they come from.
* `Batch.offer`: takes a fix into the batch, if it goes with it.
* `Batch.ofFixes`: the batch taken from a list of fixes.
* `Batch.run`: the text after the batch, with the number of fixes applied.
-/

namespace SharpLint

/-- Fixes that are applied together. -/
structure Batch where
  /-- The edits of all fixes taken, in order. -/
  edits : List Edit := []
  /-- The number of fixes taken. -/
  taken : Nat := 0
  deriving DecidableEq, Repr

namespace Batch

/-- The batch with `fix` taken in, or as it was when an overlap would arise. -/
def offer (batch : Batch) (fix : Fix) : Batch :=
  let edits := Edit.inOrder (batch.edits ++ fix.edits)
  if Edit.overlapping edits then batch else ⟨edits, batch.taken + 1⟩

/-- The batch that takes greedily from `fixes`. -/
def ofFixes (fixes : List Fix) : Batch :=
  fixes.foldl offer {}

/-- The text after the batch of `fixes` and the number of fixes applied. When
    the batch does not fit the text, nothing is applied. -/
def run (text : Text) (fixes : List Fix) : Text × Nat :=
  let batch := ofFixes fixes
  match Fix.applyEdits text batch.edits with
  | .ok after => (after, batch.taken)
  | .error _ => (text, 0)

end Batch

end SharpLint
