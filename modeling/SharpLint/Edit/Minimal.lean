import SharpLint.Edit.Basic

/-!
# Minimal Edits

The smallest single edit that turns one text into another: what the two texts
have in common at the start is kept, and of what remains, what they have in
common at the end.

## Main definitions

* `Text.commonPrefix`: the longest common start of two texts and what follows
  it in each.
* `Edit.minimal`: the smallest edit between two texts.
-/

namespace SharpLint

namespace Text

/-- The longest common start of two texts, and the rest of each. -/
def commonPrefix : Text → Text → Text × Text × Text
  | a :: as, b :: bs =>
    if a = b then
      let (shared, restA, restB) := commonPrefix as bs
      (a :: shared, restA, restB)
    else ([], a :: as, b :: bs)
  | as, bs => ([], as, bs)

end Text

/-- The smallest edit that turns `old` into `new`. -/
def Edit.minimal (old new : Text) : Edit :=
  let (before, oldRest, newRest) := Text.commonPrefix old new
  let (_, oldMiddle, newMiddle) := Text.commonPrefix oldRest.reverse newRest.reverse
  ⟨⟨before.size, before.size + oldMiddle.size⟩, newMiddle.reverse⟩

end SharpLint
