/-!
# Texts and Byte Offsets

A text is the list of its characters. Positions in a text are byte offsets
into its UTF-8 form, as editors and parsers count them, so a position may
fall inside a character; the functions that cut a text at a position answer
`none` there.

## Main definitions

* `Span`: a half-open range of byte offsets.
* `Text.size`: the number of bytes of a text.
* `Text.splitAt?`: the two parts of a text around a byte offset.
* `Text.slice?`: the part of a text in a span.

## Theorems

* `Text.size_append`: sizes add up.
* `Text.append_of_splitAt?`: the parts of a text make up the text.
* `Text.size_of_splitAt?`: the first part has the size that was asked for.
* `Text.splitAt?_append`: a text can be cut where two texts were joined.
-/

namespace SharpLint

/-- A half-open range `[start, stop)` of byte offsets. -/
structure Span where
  start : Nat
  stop : Nat
  deriving DecidableEq, Repr, Inhabited

namespace Span

/-- Whether `inner` lies inside `outer`, ends included. -/
def within (inner outer : Span) : Bool :=
  outer.start ≤ inner.start && inner.stop ≤ outer.stop

end Span

/-- A text, as its characters in order. -/
abbrev Text := List Char

namespace Text

/-- The number of bytes the text takes in UTF-8. -/
def size : Text → Nat
  | [] => 0
  | c :: cs => c.utf8Size + size cs

/-- The parts of the text before and after byte `offset`, unless the offset
    lies inside a character or past the end. -/
def splitAt? (offset : Nat) : Text → Option (Text × Text)
  | [] => if offset = 0 then some ([], []) else none
  | c :: cs =>
    if offset = 0 then some ([], c :: cs)
    else if c.utf8Size ≤ offset then
      (splitAt? (offset - c.utf8Size) cs).map fun parts => (c :: parts.1, parts.2)
    else none

/-- The part of the text in `span`, unless one of its ends lies inside a
    character, past the end, or before the other. -/
def slice? (text : Text) (span : Span) : Option Text :=
  if span.start ≤ span.stop then
    match splitAt? span.start text with
    | some (_, rest) => (splitAt? (span.stop - span.start) rest).map Prod.fst
    | none => none
  else none

/-- The part of the text in `span`; empty where `slice?` has no answer. -/
def slice (text : Text) (span : Span) : Text :=
  (slice? text span).getD []

/-- Whether `prefixed` begins with `start`. -/
def startsWith (prefixed start : Text) : Bool :=
  start.isPrefixOf prefixed

@[simp] theorem size_nil : size [] = 0 := rfl

@[simp] theorem size_cons (c : Char) (cs : Text) : size (c :: cs) = c.utf8Size + size cs := rfl

@[simp] theorem size_append (a b : Text) : size (a ++ b) = size a + size b := by
  induction a with
  | nil => simp
  | cons c cs ih => simp [ih, Nat.add_assoc]

theorem append_of_splitAt? {offset : Nat} {text a b : Text}
    (h : splitAt? offset text = some (a, b)) : a ++ b = text := by
  induction text generalizing offset a b with
  | nil =>
    simp only [splitAt?] at h
    split at h <;> simp_all
  | cons c cs ih =>
    simp only [splitAt?] at h
    split at h
    · simp_all
    · split at h
      · obtain ⟨⟨p, q⟩, hp, hq⟩ := Option.map_eq_some_iff.1 h
        obtain ⟨rfl, rfl⟩ := Prod.mk.inj hq
        simp [ih hp]
      · simp at h

theorem size_of_splitAt? {offset : Nat} {text a b : Text}
    (h : splitAt? offset text = some (a, b)) : size a = offset := by
  induction text generalizing offset a b with
  | nil =>
    simp only [splitAt?] at h
    split at h <;> simp_all
  | cons c cs ih =>
    simp only [splitAt?] at h
    split at h
    · simp_all
    · split at h
      · obtain ⟨⟨p, q⟩, hp, hq⟩ := Option.map_eq_some_iff.1 h
        obtain ⟨rfl, rfl⟩ := Prod.mk.inj hq
        have := ih hp
        simp only [size_cons]
        omega
      · simp at h

@[simp] theorem splitAt?_zero (text : Text) : splitAt? 0 text = some ([], text) := by
  cases text <;> simp [splitAt?]

theorem splitAt?_append (a b : Text) : splitAt? (size a) (a ++ b) = some (a, b) := by
  induction a with
  | nil => simp
  | cons c cs ih =>
    have := Char.utf8Size_pos c
    have hne : ¬(c.utf8Size + size cs = 0) := by omega
    have hle : c.utf8Size ≤ c.utf8Size + size cs := by omega
    simp only [List.cons_append, splitAt?, size_cons, if_neg hne, if_pos hle,
      Nat.add_sub_cancel_left, ih, Option.map_some]

end Text

end SharpLint
