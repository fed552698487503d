import SharpLint.Proofs.Edit.TidyLines

/-!
# Texts That Tidying Leaves Alone

A text is tidy if no line has padding before its terminator and no blank line
but the last stands behind a line that makes it superfluous. Tidying leaves such
a text as it is, whatever lines are touched, and where it touches all lines, a
tidy text is what it makes of nearly all texts.

The exception are lines that end in padding, a carriage return and padding again.
The last padding stands before the terminator and goes. That sets the carriage
return at the end of the line, where it is a part of the terminator, and the other
padding now stands before it. So the text is not tidy, and tidying it once more
changes it. But no line that was tidied ends in padding, so the second time there
is no exception, and what it leaves is tidy.

The lines that stay are followed by an induction on the lines of the text, with
the line that was kept last as the state.

## Main definitions

* `Text.Trimmed`: a line without padding before its terminator.
* `Text.Interrupted`: a line with a carriage return in the padding at its end.
* `Text.Spaced`: lines none of which is blank and superfluous.
* `Text.IsTidy`: a text of trimmed lines that are spaced.
* `Text.TouchesAll`: spans that touch all lines of a text.

## Theorems

* `tidy_eq_self`: A tidy text is left alone.
* `isTidy_tidy`: Without interrupted lines a text is tidy when it has been tidied.
* `tidy_reaches_normal`: A text that is tidied twice is tidy.
* `second_tidy_trims_more`: A text that is tidied once need not be tidy.
-/

namespace SharpLint

open Text

namespace Text

/-- The line has no padding at its end, nor before a carriage return there. -/
structure Trimmed (line : Text) : Prop where
  atEnd : ∀ core c, line = core ++ [c] → isPadding c = false
  beforeReturn : ∀ core c, line = core ++ [c, '\r'] → isPadding c = false

/-- The line ends in padding, a carriage return and padding again. -/
def Interrupted (line : Text) : Prop :=
  ∃ core c pad, line = core ++ [c, '\r'] ++ pad ∧ isPadding c = true ∧ pad ≠ []
    ∧ ∀ d ∈ pad, isPadding d = true

/-- No line but the last is blank and stands behind one that is blank or opens a
    block. -/
def Spaced (lines : List Text) : Prop :=
  ∀ before shadow line after, lines = before ++ shadow :: line :: after → after ≠ [] →
    shadow.Shadows → line.isBlank = false

/-- Tidying has nothing to do in the text. -/
structure IsTidy (text : Text) : Prop where
  trimmed : ∀ line ∈ splitLines text, line.Trimmed
  spaced : Spaced (splitLines text)

/-- The spans touch every line of the text. -/
def TouchesAll (text : Text) (spans : List Span) : Prop :=
  ∀ n < (splitLines text).length, text.TouchedBy spans n

/-- The first of the lines is not superfluous where it stands. -/
def HeadSpaced (shadowed : Prop) (lines : List Text) : Prop :=
  ∀ line after, lines = line :: after → after ≠ [] → shadowed → line.isBlank = false

theorem spaced_cons {first : Text} {lines : List Text} :
    Spaced (first :: lines) ↔ HeadSpaced first.Shadows lines ∧ Spaced lines := by
  constructor
  · intro h
    refine ⟨fun line after hlines => h [] first line after (by rw [hlines]; rfl), ?_⟩
    exact fun before shadow line after hlines =>
      h (first :: before) shadow line after (by rw [hlines]; rfl)
  · rintro ⟨hhead, htail⟩ before shadow line after hlines
    cases before with
    | nil =>
        rw [List.nil_append, List.cons.injEq] at hlines
        exact hlines.1 ▸ hhead line after hlines.2
    | cons other before =>
        rw [List.cons_append, List.cons.injEq] at hlines
        exact htail before shadow line after hlines.2

variable {line : Text}

/-- A line that does not end in padding is not interrupted. -/
theorem not_interrupted (h : ∀ core c, line = core ++ [c] → isPadding c = false) :
    ¬line.Interrupted := by
  rintro ⟨core, c, pad, rfl, -, hne, hpad⟩
  obtain ⟨pad, d, rfl⟩ := (List.eq_nil_or_concat pad).resolve_left hne
  rw [List.concat_eq_append] at h hpad
  have hd := h (core ++ [c, '\r'] ++ pad) d (List.append_assoc _ _ _).symm
  rw [hpad d List.mem_concat_self] at hd
  exact Bool.noConfusion hd

/-- A line without its padding ends in none, and has none before a carriage return
    unless the return stood among the padding. -/
theorem Unpadded.trimmed {out : Text} (h : line.Unpadded out) :
    (∀ core c, out = core ++ [c] → isPadding c = false) ∧ (¬line.Interrupted → out.Trimmed) := by
  obtain ⟨core, pad, ret, hline, hout, hpad, hcore, hret⟩ := h
  have hend : ∀ before c, core = before ++ [c] → isPadding c = false := by
    rintro before c rfl
    exact hcore c List.getLast?_concat
  rcases hret with rfl | ⟨rfl, hlast⟩
  · -- The carriage return is a part of the terminator.
    have hatEnd : ∀ before c, out = before ++ [c] → isPadding c = false := by
      intro before c hc
      rw [hout, List.append_singleton_inj] at hc
      rw [← hc.2]
      rfl
    refine ⟨hatEnd, fun _ => ⟨hatEnd, fun before c hc => hend before c ?_⟩⟩
    rw [List.append_cons, hout] at hc
    exact List.append_cancel_right hc
  · rw [List.append_nil] at hline hout
    subst hout
    refine ⟨hend, fun hnot => ⟨hend, fun before c hc => Bool.eq_false_iff.2 fun hpadding => ?_⟩⟩
    refine hnot ⟨before, c, pad, by rw [hline, hc], hpadding, ?_, hpad⟩
    -- Without padding behind it, the carriage return would have been set apart.
    rintro rfl
    refine hlast ?_
    rw [hline, List.append_nil, hc, List.append_cons, List.getLast?_concat]

theorem length_splitLines (text : Text) : (splitLines text).length = text.count '\n' + 1 := by
  induction text with
  | nil => rfl
  | cons c text ih =>
      rw [splitLines]
      split
      · next hc => rw [hc, List.length_cons, ih, List.count_cons_self]
      · next hc =>
        rw [List.count_cons_of_ne hc]
        split
        · next hnil => exact absurd hnil (splitLines_ne_nil text)
        · next first lines hlines => rw [← ih, hlines, List.length_cons, List.length_cons]

/-- A span from the start of a text to its end touches all lines. -/
theorem touchesAll_whole (text : Text) : TouchesAll text [⟨0, size text⟩] := by
  intro n hn
  have hfirst := LineTable.line_cut [] text
  have hlast := LineTable.line_cut text []
  rw [List.nil_append, List.count_nil, size_nil, LineTable.line_eq] at hfirst
  rw [List.append_nil, LineTable.line_eq] at hlast
  rw [length_splitLines] at hn
  refine ⟨⟨0, size text⟩, List.mem_singleton_self _, ?_, ?_⟩
  · rw [hfirst]
    exact Nat.zero_le n
  · rw [hlast]
    omega

end Text

/-- A trimmed line is written as it stands. -/
theorem TidyLine.written_of_trimmed {line : Text} (h : line.Trimmed) (touched : Bool) :
    (TidyLine.ofRaw touched line).written = line := by
  cases touched with
  | false => exact TidyLine.written_ofRaw_false line
  | true =>
      obtain ⟨core, pad, ret, hline, hout, hpad, -, hret⟩ := TidyLine.unpadded_written line
      -- Only padding at the end goes; a trimmed line has none, before a return or at the very end.
      rcases List.eq_nil_or_concat pad with rfl | ⟨pad, c, rfl⟩
      · rw [hout, hline, List.append_nil]
      · have hc := hpad c (by rw [List.concat_eq_append]; exact List.mem_concat_self)
        rw [List.concat_eq_append, ← List.append_assoc] at hline
        rcases hret with rfl | ⟨rfl, -⟩
        · rw [List.append_assoc, List.singleton_append] at hline
          rw [h.beforeReturn _ c hline] at hc
          exact Bool.noConfusion hc
        · rw [List.append_nil] at hline
          rw [h.atEnd _ c hline] at hc
          exact Bool.noConfusion hc

/-! ### Lines that stay -/

section KeptLines

variable {shadowed : Bool} {lines : List TidyLine}

/-- Where all lines are touched, no line that stays is blank and superfluous. -/
theorem spaced_keptLines (h : ∀ line ∈ lines, line.touched = true) :
    HeadSpaced (shadowed = true) ((keptLines shadowed lines).map TidyLine.written)
      ∧ Spaced ((keptLines shadowed lines).map TidyLine.written) := by
  induction lines generalizing shadowed with
  | nil =>
      refine ⟨fun line after hlines => absurd hlines.symm (List.cons_ne_nil _ _),
        fun before shadow line after hlines => absurd hlines.symm ?_⟩
      exact List.append_ne_nil_of_right_ne_nil _ (List.cons_ne_nil _ _)
  | cons line lines ih =>
      have htouched := h line List.mem_cons_self
      have htail (shadowed : Bool) := @ih shadowed fun other hother =>
        h other (List.mem_cons_of_mem _ hother)
      rw [keptLines]
      split
      · exact htail shadowed
      · next hkept =>
        obtain ⟨hhead, hspaced⟩ := htail line.shadowsBlank
        rw [List.map_cons]
        constructor
        · rintro _ after ⟨⟩ hafter hshadowed
          -- The line would have gone if it were blank, for others stay behind it.
          rw [Bool.eq_false_iff]
          intro hblank
          refine hkept ?_
          rw [isBlank_iff_filter, TidyLine.ink_written, ← TidyLine.ink_cleaned,
            ← isBlank_iff_filter] at hblank
          rw [htouched, hblank, hshadowed, Bool.and_self, Bool.and_self, Bool.true_and,
            Bool.not_eq_true', List.isEmpty_eq_false_iff]
          rintro rfl
          exact hafter rfl
        · refine spaced_cons.2 ⟨fun other after hlines hafter hshadows => ?_, hspaced⟩
          refine hhead other after hlines hafter (TidyLine.shadowsBlank_iff.2 ?_)
          exact (shadows_congr line.ink_written).1 hshadows

/-- Where no line is blank and superfluous, all lines stay. -/
theorem keptLines_of_spaced
    (hhead : HeadSpaced (shadowed = true) (lines.map TidyLine.written))
    (hspaced : Spaced (lines.map TidyLine.written)) : keptLines shadowed lines = lines := by
  induction lines generalizing shadowed with
  | nil => rfl
  | cons line lines ih =>
      obtain ⟨hnext, htail⟩ := spaced_cons.1 hspaced
      rw [keptLines, if_neg ?_, ih ?_ htail]
      · intro other after hother hafter hshadows
        refine hnext other after hother hafter ((shadows_congr line.ink_written).2 ?_)
        exact TidyLine.shadowsBlank_iff.1 hshadows
      · simp only [Bool.and_eq_true, Bool.not_eq_true', List.isEmpty_eq_false_iff]
        -- Blankness is a matter of ink, which cleaning and writing leave as it is.
        rintro ⟨⟨⟨-, hblank⟩, hshadowed⟩, hmore⟩
        have hnot := hhead line.written (lines.map TidyLine.written) rfl
          (by rwa [Ne, List.map_eq_nil_iff]) hshadowed
        rw [isBlank_iff_filter, TidyLine.ink_cleaned, ← TidyLine.ink_written,
          ← isBlank_iff_filter, hnot] at hblank
        exact Bool.noConfusion hblank

end KeptLines

/-! ### Texts -/

variable {text : Text} {spans again : List Span}

/-- A tidy text is left alone, whatever lines are touched. -/
theorem tidy_eq_self (h : text.IsTidy) (spans : List Span) : tidy text spans = text := by
  have hwritten : (text.markedLines spans).map TidyLine.written = splitLines text := by
    refine List.ext_getElem (by rw [List.length_map, Text.markedLines, List.length_mapIdx])
      fun n hn hn' => ?_
    simp only [Text.markedLines, List.getElem_map, List.getElem_mapIdx]
    exact TidyLine.written_of_trimmed (h.trimmed _ (List.getElem_mem hn')) _
  rw [tidy_eq, keptLines_of_spaced ?_ (hwritten ▸ h.spaced), hwritten, joinLines_splitLines]
  exact fun _ _ _ _ hfalse => absurd hfalse Bool.false_ne_true

/-- Where all lines are touched, so are their marks. -/
theorem touched_of_touchesAll (h : TouchesAll text spans) {line : TidyLine}
    (hline : line ∈ text.markedLines spans) : line.touched = true := by
  obtain ⟨n, hn, rfl⟩ := List.mem_mapIdx.1 hline
  rw [TidyLine.touched_ofRaw]
  exact touchesLine_iff.2 (h n hn)

/-- Where all lines are touched, each line of the tidied text is one of the text
    without its padding. -/
theorem exists_unpadded (h : TouchesAll text spans) {out : Text}
    (hout : out ∈ splitLines (tidy text spans)) : ∃ line ∈ splitLines text, line.Unpadded out := by
  rw [splitLines_tidy] at hout
  obtain ⟨kept, hkept, rfl⟩ := List.mem_map.1 hout
  obtain ⟨n, hn, rfl⟩ := List.mem_mapIdx.1 ((keptLines_sublist _ _).subset hkept)
  refine ⟨_, List.getElem_mem hn, ?_⟩
  rw [touchesLine_iff.2 (h n hn)]
  exact TidyLine.unpadded_written _

theorem spaced_tidy (h : TouchesAll text spans) : Spaced (splitLines (tidy text spans)) := by
  rw [splitLines_tidy]
  exact (spaced_keptLines fun line => touched_of_touchesAll h).2

/-- Where all lines are touched and none is interrupted, what is left is tidy. -/
theorem isTidy_tidy (h : TouchesAll text spans)
    (hnone : ∀ line ∈ splitLines text, ¬line.Interrupted) : (tidy text spans).IsTidy := by
  refine ⟨fun out hout => ?_, spaced_tidy h⟩
  obtain ⟨line, hline, hunpadded⟩ := exists_unpadded h hout
  exact hunpadded.trimmed.2 (hnone line hline)

/-- Where all lines are touched, none ends in padding afterwards. -/
theorem atEnd_tidy (h : TouchesAll text spans) {out : Text}
    (hout : out ∈ splitLines (tidy text spans)) {core : Text} {c : Char}
    (hc : out = core ++ [c]) : isPadding c = false := by
  obtain ⟨line, -, hunpadded⟩ := exists_unpadded h hout
  exact hunpadded.trimmed.1 core c hc

/-- Tidying all lines of a text leaves no blank line superfluous and no padding at
    the end of a line. It leaves a tidy text, which it changes no more, if no line
    is interrupted. Otherwise it may leave padding before the carriage return of a
    line, which goes when all lines are tidied again, and nothing else does. What
    is left then is tidy. -/
theorem tidy_reaches_normal (h : TouchesAll text spans) :
    Spaced (splitLines (tidy text spans))
      ∧ (∀ line ∈ splitLines (tidy text spans), ∀ core c, line = core ++ [c] →
        isPadding c = false)
      ∧ ((∀ line ∈ splitLines text, ¬line.Interrupted) → (tidy text spans).IsTidy
        ∧ ∀ again, tidy (tidy text spans) again = tidy text spans)
      ∧ ∀ again, TouchesAll (tidy text spans) again →
        tidy (tidy text spans) again
            = joinLines ((splitLines (tidy text spans)).map Text.trimReturn)
          ∧ (tidy (tidy text spans) again).IsTidy
          ∧ ∀ third, tidy (tidy (tidy text spans) again) third = tidy (tidy text spans) again := by
  refine ⟨spaced_tidy h, fun line hline core c => atEnd_tidy h hline, fun hnone => ?_,
    fun again hagain => ?_⟩
  · exact ⟨isTidy_tidy h hnone, tidy_eq_self (isTidy_tidy h hnone)⟩
  · -- The first time has left no line that ends in padding, and so none is interrupted.
    have htidy : (tidy (tidy text spans) again).IsTidy :=
      isTidy_tidy hagain fun line hline => not_interrupted fun core c => atEnd_tidy h hline
    refine ⟨?_, htidy, tidy_eq_self htidy⟩
    rw [tidy_tidy_of_touched fun n line hline _ => touched_of_touchesAll h
      ((keptLines_sublist _ _).subset (List.mem_of_getElem? hline))]
    congr 1
    refine List.ext_getElem (by rw [List.length_mapIdx, List.length_map]) fun n hn hn' => ?_
    rw [List.length_mapIdx] at hn
    rw [List.getElem_mapIdx, List.getElem_map, if_pos (touchesLine_iff.2 (hagain n hn))]

/-- A line that ends in padding, a carriage return and padding again. -/
def interruptedText : Text :=
  "a \r \n".toList

/-- Two passes make the text tidy. -/
theorem interruptedText_reaches_normal :
    TouchesAll interruptedText [⟨0, 5⟩] ∧ TouchesAll (tidy interruptedText [⟨0, 5⟩]) [⟨0, 4⟩]
      ∧ (tidy (tidy interruptedText [⟨0, 5⟩]) [⟨0, 4⟩]).IsTidy := by
  have hfirst : TouchesAll interruptedText [⟨0, 5⟩] := touchesAll_whole interruptedText
  have hsecond : TouchesAll (tidy interruptedText [⟨0, 5⟩]) [⟨0, 4⟩] := touchesAll_whole _
  exact ⟨hfirst, hsecond, ((tidy_reaches_normal hfirst).2.2.2 _ hsecond).2.1⟩

/-- One pass does not: padding is left before a carriage return, and the second
    pass takes it. -/
theorem second_tidy_trims_more :
    TouchesAll interruptedText [⟨0, 5⟩] ∧ TouchesAll (tidy interruptedText [⟨0, 5⟩]) [⟨0, 4⟩]
      ∧ tidy interruptedText [⟨0, 5⟩] = "a \r\n".toList
      ∧ tidy (tidy interruptedText [⟨0, 5⟩]) [⟨0, 4⟩] = "a\r\n".toList := by
  refine ⟨touchesAll_whole interruptedText, touchesAll_whole (tidy interruptedText [⟨0, 5⟩]), ?_, ?_⟩
    <;> decide

end SharpLint
