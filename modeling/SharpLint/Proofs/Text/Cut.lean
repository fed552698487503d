import SharpLint.Text.Blank
import SharpLint.Text.Lines

/-!
# Cutting Texts

Where a text can be cut, and what the parts are. The functions that cut a text
answer `none` inside a character; here their answers are described by the
parts themselves, so that later proofs speak of concatenations and never open
the recursion over characters.

## Main definitions

* `Text.CutsAt`: a byte offset that lies between two characters.
* `Text.HoldsAt`: a text that stands in another at a given byte offset.

## Theorems

* `Text.splitAt?_eq_some_iff`: the parts around a byte offset.
* `Text.slice?_eq_some_iff`: the part in a span.
* `Text.append_inj_of_size`: parts of equal size are equal.
-/

namespace SharpLint

theorem Span.within_iff {inner outer : Span} :
    inner.within outer = true ↔ outer.start ≤ inner.start ∧ inner.stop ≤ outer.stop := by
  rw [Span.within, Bool.and_eq_true, decide_eq_true_eq, decide_eq_true_eq]

namespace Text

/-- Byte `offset` lies between two characters of the text, or at an end. -/
def CutsAt (text : Text) (offset : Nat) : Prop :=
  ∃ before after, text = before ++ after ∧ size before = offset

/-- `part` stands in the text, and begins at byte `offset`. -/
def HoldsAt (text : Text) (offset : Nat) (part : Text) : Prop :=
  ∃ before after, text = before ++ part ++ after ∧ size before = offset

theorem splitAt?_eq_some_iff {offset : Nat} {text a b : Text} :
    splitAt? offset text = some (a, b) ↔ text = a ++ b ∧ size a = offset := by
  constructor
  · intro h
    exact ⟨(append_of_splitAt? h).symm, size_of_splitAt? h⟩
  · rintro ⟨rfl, rfl⟩
    exact splitAt?_append a b

theorem eq_nil_of_size {text : Text} (h : size text = 0) : text = [] := by
  cases text with
  | nil => rfl
  | cons c cs =>
      have hc := Char.utf8Size_pos c
      rw [size_cons] at h
      omega

theorem append_inj_of_size {a b c d : Text} (h : a ++ b = c ++ d) (hs : size a = size c) :
    a = c ∧ b = d := by
  have hleft := splitAt?_append a b
  rw [h, hs, splitAt?_append c d, Option.some.injEq, Prod.mk.injEq] at hleft
  exact ⟨hleft.1.symm, hleft.2.symm⟩

/-- Of two beginnings of one text, the one that is not longer begins the
    other. -/
theorem exists_append_of_size_le {a b c d : Text} (h : a ++ b = c ++ d) (hle : size a ≤ size c) :
    ∃ mid, c = a ++ mid ∧ b = mid ++ d := by
  rcases List.append_eq_append_iff.1 h with ⟨mid, hc, hb⟩ | ⟨mid, ha, hd⟩
  · exact ⟨mid, hc, hb⟩
  · have hsizes := congrArg size ha
    rw [size_append] at hsizes
    obtain rfl : mid = [] := eq_nil_of_size (by omega)
    exact ⟨[], by rw [ha, List.append_nil, List.append_nil], hd.symm⟩

theorem slice?_eq_some_iff {text mid : Text} {span : Span} :
    slice? text span = some mid ↔ ∃ before after,
      text = before ++ mid ++ after ∧ size before = span.start
        ∧ span.start + size mid = span.stop := by
  constructor
  · intro h
    unfold slice? at h
    split at h
    · next hle =>
      split at h
      · next before rest hsplit =>
        obtain ⟨⟨m, after⟩, hm, rfl⟩ := Option.map_eq_some_iff.1 h
        -- The text is split at the start, and what is behind it once more at the stop.
        obtain ⟨rfl, hbefore⟩ := splitAt?_eq_some_iff.1 hsplit
        obtain ⟨rfl, hsize⟩ := splitAt?_eq_some_iff.1 hm
        refine ⟨before, after, by simp only [List.append_assoc], hbefore, ?_⟩
        change span.start + size m = span.stop
        omega
      · exact absurd h (by simp only [reduceCtorEq, not_false_eq_true])
    · exact absurd h (by simp only [reduceCtorEq, not_false_eq_true])
  · rintro ⟨before, after, rfl, hbefore, hstop⟩
    have hsub : span.stop - span.start = size mid := by omega
    simp only [slice?, List.append_assoc, ← hbefore, splitAt?_append]
    simp only [hbefore, hsub, splitAt?_append, Option.map_some]
    exact if_pos (by omega)

theorem slice_eq_of_slice? {text mid : Text} {span : Span} (h : slice? text span = some mid) :
    slice text span = mid := by
  rw [slice, h, Option.getD_some]

/-! ### Cuts -/

@[simp] theorem cutsAt_zero (text : Text) : text.CutsAt 0 :=
  ⟨[], text, rfl, rfl⟩

@[simp] theorem cutsAt_size (text : Text) : text.CutsAt text.size :=
  ⟨text, [], (List.append_nil text).symm, rfl⟩

theorem CutsAt.le {text : Text} {offset : Nat} (h : text.CutsAt offset) :
    offset ≤ text.size := by
  obtain ⟨before, after, rfl, rfl⟩ := h
  simp only [size_append, Nat.le_add_right]

/-- Two cuts of one text, the first not after the second, cut it in three. -/
theorem CutsAt.split {text : Text} {start stop : Nat} (hstart : text.CutsAt start)
    (hstop : text.CutsAt stop) (hle : start ≤ stop) :
    ∃ before mid after, text = before ++ mid ++ after ∧ size before = start
      ∧ size before + size mid = stop := by
  obtain ⟨a, b, rfl, rfl⟩ := hstart
  obtain ⟨c, d, htext, rfl⟩ := hstop
  obtain ⟨mid, rfl, rfl⟩ := exists_append_of_size_le htext hle
  exact ⟨a, mid, d, by simp only [List.append_assoc], rfl, by rw [size_append]⟩

theorem CutsAt.slice? {text : Text} {span : Span} (hstart : text.CutsAt span.start)
    (hstop : text.CutsAt span.stop) (hle : span.start ≤ span.stop) :
    ∃ mid, text.slice? span = some mid := by
  obtain ⟨before, mid, after, htext, hbefore, hmid⟩ := hstart.split hstop hle
  exact ⟨mid, slice?_eq_some_iff.2 ⟨before, after, htext, hbefore, by omega⟩⟩

/-! ### Parts in their places -/

theorem HoldsAt.cutsAt {text part : Text} {offset : Nat} (h : text.HoldsAt offset part) :
    text.CutsAt offset := by
  obtain ⟨before, after, rfl, rfl⟩ := h
  exact ⟨before, part ++ after, by simp only [List.append_assoc], rfl⟩

theorem HoldsAt.cutsAt_stop {text part : Text} {offset : Nat} (h : text.HoldsAt offset part) :
    text.CutsAt (offset + part.size) := by
  obtain ⟨before, after, rfl, rfl⟩ := h
  exact ⟨before ++ part, after, rfl, size_append before part⟩

theorem HoldsAt.slice? {text part : Text} {offset : Nat} (h : text.HoldsAt offset part) :
    text.slice? ⟨offset, offset + part.size⟩ = some part := by
  obtain ⟨before, after, rfl, rfl⟩ := h
  exact slice?_eq_some_iff.2 ⟨before, after, rfl, rfl, rfl⟩

theorem slice?_eq_some_iff_holdsAt {text mid : Text} {span : Span} :
    slice? text span = some mid ↔
      text.HoldsAt span.start mid ∧ span.start + size mid = span.stop := by
  rw [slice?_eq_some_iff]
  constructor
  · rintro ⟨before, after, htext, hbefore, hstop⟩
    exact ⟨⟨before, after, htext, hbefore⟩, hstop⟩
  · rintro ⟨⟨before, after, htext, hbefore⟩, hstop⟩
    exact ⟨before, after, htext, hbefore, hstop⟩

/-! ### Stretches between cuts -/

/-- A stretch is made up of its parts. -/
theorem slice_append {text : Text} {start mid stop : Nat} (hstart : text.CutsAt start)
    (hmid : text.CutsAt mid) (hstop : text.CutsAt stop) (hle : start ≤ mid) (hle' : mid ≤ stop) :
    text.slice ⟨start, stop⟩ = text.slice ⟨start, mid⟩ ++ text.slice ⟨mid, stop⟩ := by
  obtain ⟨before, first, after, htext, hbefore, hfirst⟩ := hstart.split hmid hle
  obtain ⟨before', second, after', htext', hbefore', hsecond⟩ := hmid.split hstop hle'
  obtain ⟨rfl, rfl⟩ := append_inj_of_size (htext.symm.trans (htext'.trans (List.append_assoc _ _ _)))
    (by rw [size_append]; omega)
  have hfirst' : text.slice ⟨start, mid⟩ = first := slice_eq_of_slice?
    (slice?_eq_some_iff.2 ⟨before, second ++ after', htext, hbefore, by rw [← hfirst, hbefore]⟩)
  have hsecond' : text.slice ⟨mid, stop⟩ = second := slice_eq_of_slice?
    (slice?_eq_some_iff.2 ⟨before ++ first, after', htext', hbefore', by rw [← hsecond, hbefore']⟩)
  rw [hfirst', hsecond']
  refine slice_eq_of_slice? (slice?_eq_some_iff.2 ⟨before, after', ?_, hbefore, ?_⟩)
  · rw [htext]
    simp only [List.append_assoc]
  · rw [size_append, ← Nat.add_assoc, ← hbefore, hfirst, hbefore'.symm, hsecond]

theorem size_slice {text : Text} {start stop : Nat} (hstart : text.CutsAt start)
    (hstop : text.CutsAt stop) (hle : start ≤ stop) :
    start + size (text.slice ⟨start, stop⟩) = stop := by
  obtain ⟨mid, hmid⟩ : ∃ mid, text.slice? ⟨start, stop⟩ = some mid := hstart.slice? hstop hle
  rw [slice_eq_of_slice? hmid]
  exact (slice?_eq_some_iff_holdsAt.1 hmid).2

end Text

end SharpLint
