import SharpLint.Proofs.Text.Breaks
import SharpLint.Session.Session

/-!
# Places in a Document

An editor names a place by a line and a column: it splits the text at the line
feeds and counts UTF-16 code units on the line, none of which is half of a
character. Cutting a text at the place of an offset yields what stands before
the offset and behind it, so offsets with one place are one offset.

## Main definitions

* `Text.splitUnits?`: a line, cut behind a number of code units.
* `Text.cutAt?`: a text, cut at a place.
* `Text.replaceRange?`: a text, with another one in the place of a range.

## Theorems

* `Text.units16_le_size`: A text has no more code units than bytes.
* `Text.exists_lines_cut`: The lines of a text that is cut.
* `Session.position_of_before`: What tells the place of an offset.
* `Session.cutAt?_position`: A text is cut at the place of an offset.
* `Session.position_inj`: Offsets with one place are one offset.
* `Text.replaceRange?_range`: A range of offsets names what stands between them.
-/

namespace SharpLint

namespace Text

/-! ### Code units -/

@[simp] theorem units16_append (a b : Text) : units16 (a ++ b) = units16 a + units16 b := by
  induction a with
  | nil => rw [List.nil_append, units16, Nat.zero_add]
  | cons c a ih => rw [List.cons_append, units16, units16, ih, Nat.add_assoc]

theorem units16_pos {text : Text} (h : text ≠ []) : 0 < units16 text := by
  cases text with
  | nil => exact absurd rfl h
  | cons c text =>
      rw [units16]
      split <;> omega

/-- A text has no more code units than bytes. A character of two units takes four
    bytes, and every other one takes at least one. -/
theorem units16_le_size (text : Text) : units16 text ≤ text.size := by
  induction text with
  | nil => exact Nat.le_refl _
  | cons c text ih =>
      have hpos := Char.utf8Size_pos c
      rw [units16, size_cons]
      by_cases hc : c.toNat < 0x10000
      · rw [if_pos hc]
        omega
      · have hsize : c.utf8Size ≠ 1 := by
          intro hone
          have hle := UInt32.le_iff_toNat_le.1 (Char.utf8Size_eq_one_iff.1 hone)
          exact hc (Nat.lt_of_le_of_lt hle (by decide))
        rw [if_neg hc]
        omega

theorem count_le_units16 (c : Char) (text : Text) : text.count c ≤ units16 text := by
  induction text with
  | nil => exact Nat.le_refl _
  | cons d text ih =>
      rw [List.count_cons, units16]
      split <;> split <;> omega

/-- The line, cut behind `units` code units; none inside a character and past
    the end. -/
def splitUnits? (units : Nat) : Text → Option (Text × Text)
  | [] => if units = 0 then some ([], []) else none
  | c :: cs =>
    if units = 0 then some ([], c :: cs)
    else if units16 [c] ≤ units then
      (splitUnits? (units - units16 [c]) cs).map fun parts => (c :: parts.1, parts.2)
    else none

theorem splitUnits?_append (a b : Text) : splitUnits? (units16 a) (a ++ b) = some (a, b) := by
  induction a with
  | nil => cases b <;> rfl
  | cons c a ih =>
      have hc : 0 < units16 [c] := units16_pos (List.cons_ne_nil c [])
      have hsum : units16 (c :: a) = units16 [c] + units16 a := units16_append [c] a
      rw [List.cons_append, splitUnits?, if_neg (by omega), if_pos (by omega), hsum,
        Nat.add_sub_cancel_left, ih, Option.map_some]

/-! ### Places -/

/-- What stands before the place and behind it; none where there is no such
    place. -/
def cutAt? (text : Text) (place : EditorPosition) : Option (Text × Text) :=
  match (splitLines text).drop place.line with
  | [] => none
  | line :: lines =>
    (splitUnits? place.character line).map fun parts =>
      (joinLines ((splitLines text).take place.line ++ [parts.1]), joinLines (parts.2 :: lines))

/-- The text with `new` in the place of a range; none where there is no such
    range. -/
def replaceRange? (text : Text) (range : EditorRange) (new : Text) : Option Text :=
  if range.start.le range.stop then
    match cutAt? text range.start, cutAt? text range.stop with
    | some (before, _), some (_, after) => some (before ++ new ++ after)
    | _, _ => none
  else none

/-- The lines of a text in two parts: those that end in the first, the one that
    is cut, and those that begin in the second. -/
theorem exists_lines_cut (a b : Text) :
    ∃ lines lead tail rest, splitLines (a ++ b) = lines ++ (lead ++ tail) :: rest
      ∧ lines.length = a.count '\n' ∧ joinLines (lines ++ [lead]) = a
      ∧ joinLines (tail :: rest) = b ∧ '\n' ∉ lead := by
  induction a with
  | nil =>
      cases hlines : splitLines b with
      | nil => exact absurd hlines (splitLines_ne_nil b)
      | cons tail rest =>
          refine ⟨[], [], tail, rest, hlines, rfl, rfl, ?_, List.not_mem_nil⟩
          rw [← hlines, joinLines_splitLines]
  | cons c a ih =>
      obtain ⟨lines, lead, tail, rest, hlines, hlength, hlead, htail, hbreak⟩ := ih
      by_cases hc : c = '\n'
      · subst hc
        refine ⟨[] :: lines, lead, tail, rest, ?_, ?_, ?_, htail, hbreak⟩
        · rw [List.cons_append, splitLines, if_pos rfl, hlines]
          rfl
        · rw [List.length_cons, hlength, List.count_cons_self]
        · rw [List.cons_append, joinLines_cons (by simp only [ne_eq, List.append_eq_nil_iff,
            List.cons_ne_self, and_false, not_false_eq_true]), hlead]
          rfl
      · have hcount : (c :: a).count '\n' = a.count '\n' := List.count_cons_of_ne hc
        rw [List.cons_append, splitLines, if_neg hc, hlines, hcount]
        cases lines with
        | nil =>
            -- The character stands on the line that is cut.
            refine ⟨[], c :: lead, tail, rest, rfl, hlength, ?_, htail, ?_⟩
            · exact congrArg (c :: ·) hlead
            · rw [List.mem_cons, not_or]
              exact ⟨Ne.symm hc, hbreak⟩
        | cons line lines =>
            refine ⟨(c :: line) :: lines, lead, tail, rest, rfl, hlength, ?_, htail, hbreak⟩
            have hne : lines ++ [lead] ≠ [] := by
              simp only [ne_eq, List.append_eq_nil_iff, List.cons_ne_self, and_false,
                not_false_eq_true]
            rw [List.cons_append, joinLines_cons hne] at hlead ⊢
            rw [← hlead]
            rfl

/-- Lines that are joined end with the last of them, behind a line feed. -/
theorem exists_joinLines_concat (lines : List Text) (last : Text) :
    ∃ before, joinLines (lines ++ [last]) = before ++ last ∧ AtLineStart before := by
  induction lines with
  | nil => exact ⟨[], rfl, .inl rfl⟩
  | cons line lines ih =>
      obtain ⟨before, hjoin, hbefore⟩ := ih
      have hne : lines ++ [last] ≠ [] := by
        simp only [ne_eq, List.append_eq_nil_iff, List.cons_ne_self, and_false, not_false_eq_true]
      refine ⟨line ++ '\n' :: before, ?_, .inr ?_⟩
      · rw [List.cons_append, joinLines_cons hne, hjoin]
        simp only [List.append_assoc, List.cons_append]
      · rcases hbefore with rfl | ⟨more, rfl⟩
        · exact ⟨line, rfl⟩
        · exact ⟨line ++ '\n' :: more, by simp only [List.append_assoc, List.cons_append]⟩

end Text

open Text

namespace Session

variable {document : Document} {a b : Text}

/-- The place of an offset is told by its line and by what stands before it on the
    line. -/
theorem position_of_before (hlines : document.lines = .ofText document.source) {offset : Nat}
    {lead : Text}
    (hlead : document.source.beforeOnLine? (.ofText document.source) offset = some lead) :
    position document offset
      = ⟨(LineTable.ofText document.source).line offset, units16 lead⟩ := by
  rw [position, editorPosition?, hlines, hlead]
  rfl

/-- The place of a cut is told by the line feeds before it and by what stands before
    it on its line. -/
theorem position_cut {before lead : Text} (hsource : document.source = before ++ lead ++ b)
    (hlines : document.lines = .ofText document.source) (hlead : '\n' ∉ lead)
    (hstart : AtLineStart before) :
    position document (size (before ++ lead)) = ⟨(before ++ lead).count '\n', units16 lead⟩ := by
  have hbefore := beforeOnLine?_cut b hlead hstart
  rw [← hsource] at hbefore
  rw [position_of_before hlines hbefore, hsource, LineTable.line_cut]

/-- A text is cut at the place of an offset. -/
theorem cutAt?_position (hsource : document.source = a ++ b)
    (hlines : document.lines = .ofText document.source) :
    document.source.cutAt? (position document (size a)) = some (a, b) := by
  obtain ⟨lines, lead, tail, rest, hsplit, hlength, hlead, htail, hbreak⟩ := exists_lines_cut a b
  obtain ⟨before, hjoin, hstart⟩ := exists_joinLines_concat lines lead
  have ha : a = before ++ lead := hlead.symm.trans hjoin
  -- The place names the line that is cut and how much of it stands before the cut.
  have hposition := position_cut (ha ▸ hsource) hlines hbreak hstart
  rw [← ha, ← hlength] at hposition
  rw [hposition, cutAt?, hsource, hsplit, List.drop_left, List.take_left]
  simp only [splitUnits?_append, Option.map_some, hlead, htail]

/-- Offsets with one place are one offset. -/
theorem position_inj (hlines : document.lines = .ofText document.source) {m n : Nat}
    (hm : document.source.CutsAt m) (hn : document.source.CutsAt n)
    (h : position document m = position document n) : m = n := by
  obtain ⟨a, b, hab, rfl⟩ := hm
  obtain ⟨c, d, hcd, rfl⟩ := hn
  have hcut := cutAt?_position hab hlines
  rw [h, cutAt?_position hcd hlines, Option.some.injEq, Prod.mk.injEq] at hcut
  rw [hcut.1]

/-- The places of two offsets come in the order of the offsets. -/
theorem position_le {mid : Text} (hsource : document.source = a ++ mid ++ b)
    (hlines : document.lines = .ofText document.source) :
    (position document (size a)).le (position document (size (a ++ mid))) = true := by
  obtain ⟨lead, behind, hlead, hbehind, horder⟩ := exists_beforeOnLine? hsource
  rw [position_of_before hlines hlead, position_of_before hlines hbehind, EditorPosition.le,
    Bool.or_eq_true, Bool.and_eq_true, decide_eq_true_eq, beq_iff_eq, decide_eq_true_eq]
  rcases horder with hline | ⟨hline, rfl⟩
  · exact .inl hline
  · rw [units16_append]
    exact .inr ⟨hline, Nat.le_add_right _ _⟩

/-- The numbers of a place are bounded by the code units of the text. -/
theorem position_bound (hsource : document.source = a ++ b)
    (hlines : document.lines = .ofText document.source) :
    (position document (size a)).line ≤ units16 document.source
      ∧ (position document (size a)).character ≤ units16 document.source := by
  obtain ⟨before, lead, rfl, hlead, hstart⟩ := exists_lastLine a
  rw [position_cut hsource hlines hlead hstart, hsource]
  have hcount := count_le_units16 '\n' (before ++ lead)
  simp only [units16_append] at hcount ⊢
  omega

end Session

/-- The text with another one in the place of a stretch of it. -/
theorem Text.replaceRange?_range {document : Document} {before middle after : Text} {span : Span}
    (hsource : document.source = before ++ middle ++ after)
    (hlines : document.lines = .ofText document.source)
    (hspan : span = ⟨size before, size (before ++ middle)⟩) (new : Text) :
    document.source.replaceRange? (Session.range document span) new
      = some (before ++ new ++ after) := by
  have hstart :=
    Session.cutAt?_position (hsource.trans (List.append_assoc before middle after)) hlines
  have hstop := Session.cutAt?_position hsource hlines
  rw [hspan, replaceRange?, Session.range, if_pos (Session.position_le hsource hlines)]
  simp only [hstart, hstop]

end SharpLint
