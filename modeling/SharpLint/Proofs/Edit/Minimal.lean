import SharpLint.Edit.Minimal
import SharpLint.Proofs.Edit.Single

/-!
# What a Minimal Edit Makes

The minimal edit between two texts leaves what they have in common at their
starts and at their ends, and puts the middle of the one in the place of the
middle of the other.

What is kept at the start is taken first, and may leave less to keep at the end
where the texts repeat. No edit gains by that: all that it keeps at the start
the minimal edit keeps too, and what an edit keeps at the end beyond the minimal
one it must remove, or insert, at the start. So no edit between the two texts
removes less or inserts less.

## Theorems

* `Text.commonPrefix_spec`: Both texts begin with what is common.
* `Text.prefix_commonPrefix`: No longer text begins both.
* `Edit.exists_minimal`: The minimal edit turns one text into the other.
* `Text.size_middle_le`: A longer end that is kept leaves no shorter middle.
* `Edit.minimal_least`: No edit between the texts is smaller than the minimal one.
-/

namespace SharpLint

namespace Text

/-- Both texts are their common start with what follows it. -/
theorem commonPrefix_spec (a b : Text) :
    a = (commonPrefix a b).1 ++ (commonPrefix a b).2.1
      ∧ b = (commonPrefix a b).1 ++ (commonPrefix a b).2.2 := by
  induction a generalizing b with
  | nil => exact ⟨rfl, rfl⟩
  | cons c a ih =>
      cases b with
      | nil => exact ⟨rfl, rfl⟩
      | cons d b =>
          rw [commonPrefix]
          split
          · next hcd =>
            exact ⟨congrArg (c :: ·) (ih b).1, by rw [← hcd]; exact congrArg (c :: ·) (ih b).2⟩
          · exact ⟨rfl, rfl⟩

/-- What both texts begin with, their common start begins with. -/
theorem prefix_commonPrefix {text a b : Text} (ha : text <+: a) (hb : text <+: b) :
    text <+: (commonPrefix a b).1 := by
  obtain ⟨a, rfl⟩ := ha
  obtain ⟨b, rfl⟩ := hb
  induction text with
  | nil => exact List.nil_prefix
  | cons c text ih =>
      rw [List.cons_append, List.cons_append, commonPrefix, if_pos rfl]
      exact List.cons_prefix_cons.2 ⟨rfl, ih⟩

theorem size_reverse (text : Text) : size text.reverse = size text := by
  induction text with
  | nil => rfl
  | cons c text ih =>
      rw [List.reverse_cons, size_append, ih, size_cons, size_cons, size_nil]
      omega

end Text

open Text

/-- The minimal edit replaces the middle of the old text, and yields the new
    one. What it keeps at the start is the longest that both texts begin with,
    and what it keeps at the end is the longest that both rests end with. -/
theorem Edit.exists_minimal_longest (old new : Text) :
    ∃ before middle after, old = before ++ middle ++ after
      ∧ new = before ++ (Edit.minimal old new).text ++ after
      ∧ (Edit.minimal old new).span = ⟨size before, size (before ++ middle)⟩
      ∧ (∀ text, text <+: old → text <+: new → text <+: before)
      ∧ ∀ text, text <:+ middle ++ after → text <:+ (Edit.minimal old new).text ++ after →
        text <:+ after := by
  obtain ⟨hold, hnew⟩ := commonPrefix_spec old new
  have hbefore (text : Text) (ha : text <+: old) (hb : text <+: new) := prefix_commonPrefix ha hb
  rcases hstart : commonPrefix old new with ⟨before, oldRest, newRest⟩
  rw [hstart] at hold hnew hbefore
  -- What is common at the ends is looked for in what is left, so both do not meet.
  obtain ⟨holdRest, hnewRest⟩ := commonPrefix_spec oldRest.reverse newRest.reverse
  have hafter (text : Text) (ha : text <+: oldRest.reverse) (hb : text <+: newRest.reverse) :=
    prefix_commonPrefix ha hb
  rcases hfinish : commonPrefix oldRest.reverse newRest.reverse with ⟨after, oldMiddle, newMiddle⟩
  rw [hfinish] at holdRest hnewRest hafter
  rw [List.reverse_eq_iff, List.reverse_append] at holdRest hnewRest
  have hminimal : Edit.minimal old new
      = ⟨⟨size before, size before + size oldMiddle⟩, newMiddle.reverse⟩ := by
    unfold Edit.minimal
    simp only [hstart, hfinish]
  rw [hminimal]
  refine ⟨before, oldMiddle.reverse, after.reverse, ?_, ?_, ?_, hbefore, fun text hold' hnew' => ?_⟩
  · rw [List.append_assoc, ← holdRest]
    exact hold
  · rw [List.append_assoc, ← hnewRest]
    exact hnew
  · rw [size_append, size_reverse]
  · rw [← holdRest, ← List.reverse_prefix] at hold'
    rw [← hnewRest, ← List.reverse_prefix] at hnew'
    rw [← List.reverse_prefix, List.reverse_reverse]
    exact hafter text.reverse hold' hnew'

/-- The minimal edit replaces the middle of the old text, and yields the new
    one. -/
theorem Edit.exists_minimal (old new : Text) :
    ∃ before middle after, old = before ++ middle ++ after
      ∧ new = before ++ (Edit.minimal old new).text ++ after
      ∧ (Edit.minimal old new).span = ⟨size before, size (before ++ middle)⟩ := by
  obtain ⟨before, middle, after, hold, hnew, hspan, -, -⟩ := Edit.exists_minimal_longest old new
  exact ⟨before, middle, after, hold, hnew, hspan⟩

/-! ### No smaller edit -/

namespace Text

theorem size_le_of_suffix {a b : Text} (h : a <:+ b) : size a ≤ size b := by
  obtain ⟨before, rfl⟩ := h
  rw [size_append]
  exact Nat.le_add_left _ _

/-- Two texts end alike with `after`, and with nothing longer. Put `more` before
    both, and cut `old` and `new` off so that `kept` is left of either: then
    `old` and `new` are no shorter than what stood before `after`. -/
theorem size_middle_le {oldMiddle newMiddle after more old new kept : Text}
    (hafter : ∀ text, text <:+ oldMiddle ++ after → text <:+ newMiddle ++ after → text <:+ after)
    (hold : more ++ (oldMiddle ++ after) = old ++ kept)
    (hnew : more ++ (newMiddle ++ after) = new ++ kept) :
    size oldMiddle ≤ size old ∧ size newMiddle ≤ size new := by
  have hends {a b : Text} (ha : a <:+ oldMiddle ++ after) (hb : a <:+ newMiddle ++ after)
      (hab : a = b ++ after) : size b = 0 := by
    have hsize := size_le_of_suffix (hafter a ha hb)
    rw [hab, size_append] at hsize
    omega
  -- Of what is kept and the rests of the two texts, the one that ends the others
  -- ends both texts.
  have hcases : size kept ≤ size after ∨ size oldMiddle = 0 ∨ size newMiddle = 0 := by
    have hkeptOld : kept <:+ oldMiddle ++ after ∨ oldMiddle ++ after <:+ kept :=
      List.suffix_or_suffix_of_suffix ⟨old, hold.symm⟩ (List.suffix_append _ _)
    have hkeptNew : kept <:+ newMiddle ++ after ∨ newMiddle ++ after <:+ kept :=
      List.suffix_or_suffix_of_suffix ⟨new, hnew.symm⟩ (List.suffix_append _ _)
    rcases hkeptOld with hkeptOld | holdKept <;> rcases hkeptNew with hkeptNew | hnewKept
    · exact .inl (size_le_of_suffix (hafter kept hkeptOld hkeptNew))
    · exact .inr (.inr (hends (hnewKept.trans hkeptOld) (List.suffix_refl _) rfl))
    · exact .inr (.inl (hends (List.suffix_refl _) (holdKept.trans hkeptNew) rfl))
    · rcases List.suffix_or_suffix_of_suffix holdKept hnewKept with hle | hle
      · exact .inr (.inl (hends (List.suffix_refl _) hle rfl))
      · exact .inr (.inr (hends hle (List.suffix_refl _) rfl))
  have holdSize := congrArg size hold
  have hnewSize := congrArg size hnew
  simp only [size_append] at holdSize hnewSize
  omega

end Text

/-- The minimal edit lies on cuts of the old text and turns it into the new one,
    and every edit that does so removes at least as many bytes and inserts at
    least as many. -/
theorem Edit.minimal_least (old new : Text) :
    (Edit.minimal old new).FitsIn old ∧ Edit.make? old (Edit.minimal old new) = some new
      ∧ ∀ edit, Edit.make? old edit = some new →
        (Edit.minimal old new).span.stop - (Edit.minimal old new).span.start
            ≤ edit.span.stop - edit.span.start
          ∧ size (Edit.minimal old new).text ≤ size edit.text := by
  obtain ⟨before, middle, after, hold, hnew, hspan, hbefore, hafter⟩ :=
    Edit.exists_minimal_longest old new
  have hmake : Edit.make? old (Edit.minimal old new) = some new :=
    Edit.make?_eq_some_iff.2 ⟨before, middle, after, hold, hnew, by rw [hspan], by rw [hspan]⟩
  refine ⟨Edit.exists_make?_iff.1 ⟨new, hmake⟩, hmake, fun edit hedit => ?_⟩
  obtain ⟨start, gone, kept, hold', hnew', hstart, hstop⟩ := Edit.make?_eq_some_iff.1 hedit
  -- All that the edit keeps at the start is kept by the minimal one.
  obtain ⟨more, rfl⟩ : start <+: before :=
    hbefore start ⟨gone ++ kept, by rw [hold', List.append_assoc]⟩
      ⟨edit.text ++ kept, by rw [hnew', List.append_assoc]⟩
  rw [hold] at hold'
  rw [hnew] at hnew'
  simp only [List.append_assoc, List.append_cancel_left_eq] at hold' hnew'
  -- It may keep more at the end, but only by as much as it keeps less at the start.
  have hle := size_middle_le hafter hold' hnew'
  simp only [hspan, size_append] at hstop ⊢
  omega

/-- The first of two equal halves is as good to remove as the second. -/
theorem Edit.minimal_least_repeated :
    (Edit.minimal "aéaé".toList "aé".toList).span.stop
        - (Edit.minimal "aéaé".toList "aé".toList).span.start ≤ 3
      ∧ size (Edit.minimal "aéaé".toList "aé".toList).text ≤ 0 :=
  (Edit.minimal_least "aéaé".toList "aé".toList).2.2 ⟨⟨0, 3⟩, []⟩ (by decide)

end SharpLint
